import MarketWire.Sink.Basic

/-!
# Output streams as sinks

An output stream does not say how much of a write it kept, only whether it has failed by now, and
once it has failed it stays so. A write counts in full when the stream has not failed after it, and
not at all otherwise.

## Main definitions

* `OutputStream` — streams that are written to.
* `BoundedStream` — a stream with room for so many bytes.
* `StreamSink` — a sink that writes to a stream.
-/

namespace MarketWire

/-! ### Streams -/

/-- Streams that are written to. -/
class OutputStream (τ : Type) where
  /-- Writes bytes. -/
  put : τ → Bytes → τ
  /-- Passes on what was written. -/
  flush : τ → τ
  /-- Whether the stream has failed. -/
  failed : τ → Bool

/-- A stream that keeps as many bytes as it has room for. The first write that does not fit makes it
fail, and it keeps nothing more. -/
structure BoundedStream where
  /-- What was kept. -/
  kept : Array UInt8 := #[]
  /-- The number of bytes that can be kept, or none without a bound. -/
  capacity : Option Nat := none
  /-- Whether a write did not fit. -/
  failed : Bool := false
  deriving DecidableEq, Repr

namespace BoundedStream

/-- Keeps the bytes that fit. -/
def put (t : BoundedStream) (bs : Bytes) : BoundedStream :=
  if t.failed then
    t
  else
    match t.capacity with
    | none => { t with kept := t.kept ++ bs }
    | some capacity =>
      let room := capacity - t.kept.size
      { t with kept := t.kept ++ bs.take room, failed := decide (room < bs.length) }

instance : OutputStream BoundedStream where
  put := put
  flush t := t
  failed t := t.failed

end BoundedStream

/-! ### Sinks -/

/-- A sink that writes to a stream. -/
structure StreamSink (τ : Type) where
  /-- The stream. -/
  stream : τ
  /-- The number of bytes taken. -/
  size : Nat := 0
  deriving DecidableEq, Repr

namespace StreamSink

variable {τ : Type} [OutputStream τ]

/-- A stream that has failed makes every use of it fail. -/
def check (stream : τ) : Outcome :=
  if OutputStream.failed stream then .error .streamFailed else .ok ()

/-- Writes to the stream. -/
def accept (s : StreamSink τ) (bs : Bytes) : Outcome × StreamSink τ :=
  let stream := OutputStream.put s.stream bs
  match check stream with
  | .ok () => (.ok (), { stream := stream, size := s.size + bs.length })
  | .error fault => (.error fault, { s with stream := stream })

/-- Flushes the stream. -/
def flush (s : StreamSink τ) : Outcome × StreamSink τ :=
  let stream := OutputStream.flush s.stream
  (check stream, { s with stream := stream })

/-- Ends the use of the stream, which can be taken up again. -/
def finish (s : StreamSink τ) : StreamSink τ :=
  { s with stream := OutputStream.flush s.stream }

instance : Sink (StreamSink τ) where
  accept := accept
  flush := flush
  size := StreamSink.size

end StreamSink

end MarketWire
