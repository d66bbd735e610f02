import MarketWire.Encoder.Basic
import MarketWire.Metadata.Encoder
import MarketWire.Sink.Basic

/-!
# The binary encoder

A binary stream is the metadata, written once and ahead of everything else, and then the records as
they are.
-/

namespace MarketWire

/-- An encoder of binary streams. -/
structure BinaryEncoder (σ : Type) where
  /-- Where the stream is written. -/
  sink : σ
  /-- Whether the metadata has been written. -/
  started : Bool := false
  deriving DecidableEq, Repr

namespace BinaryEncoder

variable {σ : Type} [Sink σ]

/-- Writes the metadata. It counts as written only if that succeeds. -/
def encodeMetadata (e : BinaryEncoder σ) (metadata : Metadata) : Outcome × BinaryEncoder σ :=
  if e.started then
    (.error .preambleRepeated, e)
  else
    match metadata.encode with
    | .error fault => (.error fault, e)
    | .ok block =>
      match Sink.write e.sink block with
      | (.ok (), sink) => (.ok (), { sink := sink, started := true })
      | (.error fault, sink) => (.error fault, { e with sink := sink })

/-- Writes a record. -/
def encodeRecord (e : BinaryEncoder σ) (r : Record) : Outcome × BinaryEncoder σ :=
  if e.started then
    let (outcome, sink) := Sink.write e.sink r.bytes
    (outcome, { e with sink := sink })
  else
    (.error .preambleMissing, e)

/-- Flushes the sink. -/
def flush (e : BinaryEncoder σ) : Outcome × BinaryEncoder σ :=
  let (outcome, sink) := Sink.flush e.sink
  (outcome, { e with sink := sink })

instance : RecordEncoder (BinaryEncoder σ) where
  encodeRecord := encodeRecord
  encodeHeader e _ := (.ok (), e)
  flush := flush

end BinaryEncoder

end MarketWire
