import MarketWire.Bytes.Utf8

/-!
# Notation for structured values

Values are written without blanks. Strings hold any character as it is, save for the quote, the
backslash and the characters below the blank, which are escaped.
-/

namespace MarketWire

namespace Json

/-- The quote around a string. -/
def quote : UInt8 := 0x22

/-- The byte that begins an escape. -/
def backslash : UInt8 := 0x5C

/-- The lower-case hexadecimal digit of a number below sixteen. -/
def hexDigit (n : Nat) : UInt8 :=
  if n < 10 then (0x30 + n).toUInt8 else (0x57 + n).toUInt8

/-- The letter that stands for a byte behind a backslash, if it has one. -/
def escapeLetter? (b : UInt8) : Option UInt8 :=
  [(0x08, 0x62), (0x09, 0x74), (0x0A, 0x6E), (0x0C, 0x66), (0x0D, 0x72), (quote, quote),
    (backslash, backslash)].lookup b

/-- A byte of a string as it is written. -/
def escapeByte (b : UInt8) : Text :=
  match escapeLetter? b with
  | some letter => [backslash, letter]
  | none =>
    if b < 0x20 then
      backslash :: Text.ofAscii "u00" ++ [hexDigit (b.toNat / 16), hexDigit (b.toNat % 16)]
    else
      [b]

/-- A string. What is no character is replaced. -/
def string (text : Text) : Text :=
  quote :: (Utf8.repair text).flatMap escapeByte ++ [quote]

/-- A number. -/
def number (value : Int) : Text :=
  Text.signedDecimal value

/-- A truth value. -/
def bool (value : Bool) : Text :=
  Text.ofAscii (if value then "true" else "false")

/-- No value. -/
def null : Text :=
  Text.ofAscii "null"

/-- A list of values that are written already. -/
def array (elements : List Text) : Text :=
  0x5B :: Text.joinWith 0x2C elements ++ [0x5D]

/-- Named values, of which the names are not written yet and the values are. -/
def object (members : List (Text × Text)) : Text :=
  0x7B :: Text.joinWith 0x2C (members.map fun m => string m.1 ++ 0x3A :: m.2) ++ [0x7D]

end Json

end MarketWire
