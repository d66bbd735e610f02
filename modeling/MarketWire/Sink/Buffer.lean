import MarketWire.Sink.Basic

/-!
# Buffers as sinks

A buffer keeps all that is written and never fails.
-/

namespace MarketWire

/-- A sink that keeps its bytes in memory. -/
structure BufferSink where
  /-- What was written. -/
  content : Array UInt8 := #[]
  deriving DecidableEq, Repr

namespace BufferSink

/-- The buffer without its bytes. -/
def clear (_ : BufferSink) : BufferSink := {}

instance : Sink BufferSink where
  accept s bs := (.ok (), { content := s.content ++ bs })
  flush s := (.ok (), s)
  size s := s.content.size

end BufferSink

end MarketWire
