import MarketWire.Record.Basic

/-!
# Record streams

A record stream gives out one record after another, and afterwards says whether it ended well. It
is asked for the next record only when that one is wanted, and may do some work then. Each record
that it gives out takes it down in rank, so every stream ends.
-/

namespace MarketWire

/-- Streams of records. -/
class RecordStream (ς : Type) where
  /-- The next record, or none at the end. -/
  next : ς → Option Record × ς
  /-- Why the stream ended early, if it did. -/
  fault? : ς → Option Fault
  /-- A bound on what is still to come. -/
  rank : ς → Nat × Nat
  /-- Every record lowers the rank. -/
  rank_next : ∀ s r, (next s).1 = some r →
    Prod.Lex (· < ·) (· < ·) (rank (next s).2) (rank s)

/-- A list is a stream that ends well. -/
instance : RecordStream (List Record) where
  next
    | [] => (none, [])
    | r :: rs => (some r, rs)
  fault? _ := none
  rank rs := (0, rs.length)
  rank_next s r h := by
    cases s with
    | nil => simp at h
    | cons r' rs => exact .right _ (by simp)

end MarketWire
