import MarketWire.Csv.Row
import MarketWire.Encoder.Basic
import MarketWire.Sink.Basic

/-!
# The encoder of rows

The header row is written once, ahead of the first record or as soon as it is asked for, and binds
the encoder to its record type. It counts as written only when the sink has taken it, so a refused
record or a failed write binds to nothing.
-/

namespace MarketWire

/-- An encoder of rows. -/
structure CsvEncoder (σ : Type) where
  /-- Where the rows are written. -/
  sink : σ
  /-- How records are written. -/
  style : TextStyle := {}
  /-- The record type of the header row, once it is written. -/
  rowType : Option RecordType := none
  deriving DecidableEq, Repr

namespace CsvEncoder

variable {σ : Type} [Sink σ]

/-- Writes text and, if the sink takes it, binds the encoder to a record type. -/
def writeFor (e : CsvEncoder σ) (t : RecordType) (text : Text) : Outcome × CsvEncoder σ :=
  match Sink.write e.sink text with
  | (.ok (), sink) => (.ok (), { e with sink := sink, rowType := some t })
  | (.error fault, sink) => (.error fault, { e with sink := sink })

/-- Whether the header row, if it is written, is that of the given type. -/
def admits (e : CsvEncoder σ) (t : RecordType) : Bool :=
  match e.rowType with
  | some bound => bound == t
  | none => true

/-- Writes the header row unless it is there already. An empty record tells which one the code asks
for. -/
def encodeHeader (e : CsvEncoder σ) (code : UInt8) : Outcome × CsvEncoder σ :=
  match (Record.zeroed code).variant with
  | .error fault => (.error fault, e)
  | .ok t =>
    if !e.admits t then
      (.error (.rowTypeMismatch code), e)
    else if e.rowType.isSome then
      (.ok (), e)
    else
      e.writeFor t (Csv.headerRow e.style t)

/-- Writes the row of a record, behind the header row if that is not there yet. -/
def encodeRecord (e : CsvEncoder σ) (r : Record) : Outcome × CsvEncoder σ :=
  match r.toOwned with
  | .error fault => (.error fault, e)
  | .ok owned =>
    if !e.admits owned.type then
      (.error (.rowTypeMismatch r.header.rtype), e)
    else
      match e.style.stampOf r with
      | .error fault => (.error fault, e)
      | .ok tsOut =>
        let header := if e.rowType.isSome then [] else Csv.headerRow e.style owned.type
        e.writeFor owned.type (header ++ Csv.recordRow e.style owned tsOut)

/-- Flushes the sink. -/
def flush (e : CsvEncoder σ) : Outcome × CsvEncoder σ :=
  let (outcome, sink) := Sink.flush e.sink
  (outcome, { e with sink := sink })

instance : RecordEncoder (CsvEncoder σ) where
  encodeRecord := encodeRecord
  encodeHeader := encodeHeader
  flush := flush

end CsvEncoder

end MarketWire
