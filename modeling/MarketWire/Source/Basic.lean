import MarketWire.Fault

/-!
# Sources

A source gives out the bytes at any position, as many as it has up to the number asked for. A read
that fails gives none and leaves a fault behind.

A source may claim a size that its data do not have. Every source has an extent, though, from which
on it gives nothing, and reading does not change that; so whoever reads on from where the last read
ended comes to an end.
-/

namespace MarketWire

/-- Sources of bytes. -/
class Source (σ : Type) where
  /-- The size that the source claims. -/
  size : σ → Nat
  /-- Up to `count` bytes from `offset` on. -/
  read : σ → (offset count : Nat) → Bytes × σ
  /-- The fault that reading left behind, if any. -/
  fault? : σ → Option Fault
  /-- The position from which on the source gives nothing. -/
  extent : σ → Nat
  /-- From its extent on a source gives nothing. -/
  read_of_extent_le : ∀ s offset count, extent s ≤ offset → (read s offset count).1 = []
  /-- Reading does not change the extent. -/
  extent_read : ∀ s offset count, extent (read s offset count).2 = extent s

end MarketWire
