import MarketWire.Bytes.Text

/-!
# Prices

A price is a whole number of billionths. One number stands for no price.
-/

namespace MarketWire

namespace Price

/-- The number that stands for no price. -/
def undefined : Int := 0x7FFFFFFFFFFFFFFF

/-- The number of units in a whole. -/
def scale : Nat := 1000000000

/-- A price as a decimal with nine places. -/
def toText (price : Int) : Text :=
  let magnitude := price.natAbs
  (if price < 0 then [0x2D] else []) ++ Text.decimal (magnitude / scale) ++
    0x2E :: Text.paddedDecimal 9 (magnitude % scale)

end Price

end MarketWire
