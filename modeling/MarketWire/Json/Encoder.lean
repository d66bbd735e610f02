import MarketWire.Encoder.Basic
import MarketWire.Encoder.TextStyle
import MarketWire.Json.Notation
import MarketWire.Metadata.Basic
import MarketWire.Sink.Basic

/-!
# The encoder of objects

Every record is an object on a line of its own, with the header as an object within it. Records of
all types may follow one another, and the metadata may be written as a line too.
-/

namespace MarketWire

/-! ### Lines -/

namespace Json

open Text in
/-- The metadata as an object. -/
def ofMetadata (m : Metadata) : Text :=
  let optional (value : Option UInt64) : Text :=
    match value with
    | some value => number value.toNat
    | none => null
  let texts (values : List Text) : Text := array (values.map string)
  let ofInterval (i : MappingInterval) : Text :=
    object [(ofAscii "start_date", number i.startDate.toNat),
      (ofAscii "end_date", number i.endDate.toNat), (ofAscii "symbol", string i.symbol)]
  let ofMapping (s : SymbolMapping) : Text :=
    object [(ofAscii "native_symbol", string s.nativeSymbol),
      (ofAscii "intervals", array (s.intervals.map ofInterval))]
  object [
    (ofAscii "version", number m.version.toNat),
    (ofAscii "dataset", string m.dataset),
    (ofAscii "schema", match m.schema with
      | some schema => string schema.name
      | none => null),
    (ofAscii "start", number m.startTs.toNat),
    (ofAscii "end", optional m.endTs),
    (ofAscii "limit", optional m.limit),
    (ofAscii "record_count", number m.recordCount.toNat),
    (ofAscii "stype_in", string m.stypeIn.name),
    (ofAscii "stype_out", string m.stypeOut.name),
    (ofAscii "ts_out", bool m.tsOut),
    (ofAscii "symbols", texts m.symbols),
    (ofAscii "partial", texts m.partialSymbols),
    (ofAscii "not_found", texts m.notFound),
    (ofAscii "mappings", array (m.mappings.map ofMapping))]

/-- A cell as a value. -/
def cellText : Cell → Text
  | .number value => number value
  | .text value => string value
  | .absent => null

/-- Fields as members of an object. -/
def members (style : TextStyle) (fields : List Field) : List (Text × Text) :=
  fields.map fun field => (field.name, cellText (style.cell field.value))

/-- A record as an object, with a send timestamp if there is one. -/
def ofRecord (style : TextStyle) (r : OwnedRecord) (tsOut : Option UInt64) : Text :=
  let body := r.bodyFields ++ tsOut.toList.map Field.tsOut
  object ((Text.ofAscii "hd", object (members style r.headerFields)) :: members style body)

/-- The end of a line. -/
def lineFeed : UInt8 := 0x0A

end Json

/-! ### The encoder -/

/-- An encoder of objects. -/
structure JsonEncoder (σ : Type) where
  /-- Where the lines are written. -/
  sink : σ
  /-- How records are shown. -/
  style : TextStyle := {}
  deriving DecidableEq, Repr

namespace JsonEncoder

variable {σ : Type} [Sink σ]

/-- Writes a line. -/
def writeLine (e : JsonEncoder σ) (line : Text) : Outcome × JsonEncoder σ :=
  let (outcome, sink) := Sink.write e.sink (line ++ [Json.lineFeed])
  (outcome, { e with sink := sink })

/-- Writes the metadata. -/
def encodeMetadata (e : JsonEncoder σ) (m : Metadata) : Outcome × JsonEncoder σ :=
  e.writeLine (Json.ofMetadata m)

/-- Writes a record. -/
def encodeRecord (e : JsonEncoder σ) (r : Record) : Outcome × JsonEncoder σ :=
  match r.toOwned with
  | .error fault => (.error fault, e)
  | .ok owned =>
    match e.style.stampOf r with
    | .error fault => (.error fault, e)
    | .ok tsOut => e.writeLine (Json.ofRecord e.style owned tsOut)

/-- Flushes the sink. -/
def flush (e : JsonEncoder σ) : Outcome × JsonEncoder σ :=
  let (outcome, sink) := Sink.flush e.sink
  (outcome, { e with sink := sink })

instance : RecordEncoder (JsonEncoder σ) where
  encodeRecord := encodeRecord
  encodeHeader e _ := (.ok (), e)
  flush := flush

end JsonEncoder

end MarketWire
