import MarketWire.Record.Basic
import MarketWire.Record.Price
import MarketWire.Record.Timestamp

/-!
# Records as text

A field is shown as a number, as a text, or not at all. Prices and timestamps are numbers unless
they are to be read by people; then they are texts, and those that stand for nothing are left out.

## Main definitions

* `TextStyle` — how records are shown.
* `Cell` — what is shown of a field.
* `TextStyle.cell` — the cell for a value.
-/

namespace MarketWire

/-- How records are shown as text. -/
structure TextStyle where
  /-- Prices are written as decimals, and undefined ones are left out. -/
  prettyPrices : Bool := false
  /-- Timestamps are written as date and time, and zero and undefined ones are left out. -/
  prettyTimestamps : Bool := false
  /-- Records carry a send timestamp, which is shown behind the other fields. -/
  tsOut : Bool := false
  deriving DecidableEq, Repr

/-- What is shown of a field. -/
inductive Cell
  | number (value : Int)
  | text (value : Text)
  /-- Nothing. -/
  | absent
  deriving DecidableEq, Repr

namespace TextStyle

/-- What is shown of a value. A NUL character is an empty text. -/
def cell (style : TextStyle) : FieldValue → Cell
  | .integer value => .number value
  | .price value =>
    if !style.prettyPrices then
      .number value
    else if value = Price.undefined then
      .absent
    else
      .text (Price.toText value)
  | .timestamp value =>
    if !style.prettyTimestamps then
      .number value
    else if value = 0 ∨ value = Timestamp.undefined then
      .absent
    else
      .text (Timestamp.toText value)
  | .character value => .text (if value = 0 then [] else [value])
  | .text value => .text value

/-- The send timestamp of a record if the style asks for it. -/
def stampOf (style : TextStyle) (r : Record) : Except Fault (Option UInt64) :=
  if style.tsOut then r.tsOut.map some else .ok none

end TextStyle

end MarketWire
