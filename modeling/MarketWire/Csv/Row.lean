import MarketWire.Csv.Quoted
import MarketWire.Encoder.TextStyle

/-!
# Rows

A record is written as one row, a value for each of its fields. Ahead of the first record stands a
row with the names of the fields.
-/

namespace MarketWire

namespace Csv

/-- A cell as it is written in a row. One that shows nothing is left empty. -/
def cellText : Cell → Text
  | .number value => Text.signedDecimal value
  | .text value => encodeValue value
  | .absent => []

/-- The row of some fields, without its end. -/
def row (style : TextStyle) (values : List FieldValue) : Text :=
  joinRow (values.map fun value => cellText (style.cell value))

/-- The row with the names of the fields. -/
def headerRow (style : TextStyle) (t : RecordType) : Text :=
  let stamp := if style.tsOut then [Text.ofAscii "ts_out"] else []
  joinRow (t.fieldNames ++ stamp) ++ [lineFeed]

/-- The row of a record, with a send timestamp if there is one. -/
def recordRow (style : TextStyle) (r : OwnedRecord) (tsOut : Option UInt64) : Text :=
  let stamp := tsOut.toList.map fun ts => FieldValue.timestamp ts.toNat
  row style (r.fields.map Field.value ++ stamp) ++ [lineFeed]

end Csv

end MarketWire
