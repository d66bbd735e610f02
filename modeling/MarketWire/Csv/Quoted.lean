import MarketWire.Bytes.Text

/-!
# Quoted values

A value that holds a comma, a quote or a line end is written between quotes, and the quotes within
it are doubled. Every other value is written as it is. Values in a row are separated by commas.
-/

namespace MarketWire

namespace Csv

/-- The byte between the values of a row. -/
def comma : UInt8 := 0x2C

/-- The byte around a value and, doubled, within it. -/
def quote : UInt8 := 0x22

/-- The byte that ends a row. -/
def lineFeed : UInt8 := 0x0A

/-- The other byte of a line end. -/
def carriageReturn : UInt8 := 0x0D

/-- Whether a byte makes quotes necessary. -/
def isSpecial (b : UInt8) : Bool :=
  b == comma || b == quote || b == carriageReturn || b == lineFeed

/-- A value with its quotes doubled. -/
def doubleQuotes : Text → Text
  | [] => []
  | b :: bs => if b = quote then quote :: quote :: doubleQuotes bs else b :: doubleQuotes bs

/-- A value as it is written. -/
def encodeValue (value : Text) : Text :=
  if value.any isSpecial then quote :: doubleQuotes value ++ [quote] else value

/-- Values that are written already, with commas between them. -/
def joinRow (values : List Text) : Text :=
  Text.joinWith comma values

end Csv

end MarketWire
