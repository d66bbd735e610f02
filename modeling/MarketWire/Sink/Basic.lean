import MarketWire.Fault

/-!
# Sinks

A sink takes bytes and counts them. Writing nothing always succeeds and does not reach the sink.
-/

namespace MarketWire

/-- Sinks of bytes. -/
class Sink (σ : Type) where
  /-- Takes bytes, of which there is at least one, or fails. -/
  accept : σ → Bytes → Outcome × σ
  /-- Passes on what was taken. -/
  flush : σ → Outcome × σ
  /-- The number of bytes taken. -/
  size : σ → Nat

namespace Sink

variable {σ : Type} [Sink σ]

/-- Writes bytes. -/
def write (s : σ) (bs : Bytes) : Outcome × σ :=
  if bs.isEmpty then (.ok (), s) else accept s bs

end Sink

end MarketWire
