import MarketWire.Source.Basic

/-!
# Sources in memory

A block of memory is a source that never fails. The size it claims is kept apart from its bytes,
so that a block of which less is there than announced is a source too.
-/

namespace MarketWire

/-- A block of memory. -/
structure MemorySource where
  /-- The bytes that are there. -/
  bytes : Array UInt8
  /-- The size that is claimed. -/
  claimed : Nat
  deriving DecidableEq, Repr

namespace MemorySource

/-- The source of the given bytes. -/
def ofBytes (bs : Bytes) : MemorySource where
  bytes := bs.toArray
  claimed := bs.length

/-- Up to `count` bytes from `offset` on. -/
def read (s : MemorySource) (offset count : Nat) : Bytes :=
  (s.bytes.extract offset (offset + count)).toList

/-- A read is a slice of the bytes that are there. -/
theorem read_eq_take_drop (s : MemorySource) (offset count : Nat) :
    s.read offset count = (s.bytes.toList.drop offset).take count := by
  simp [read, List.extract_eq_take_drop]

instance : Source MemorySource where
  size s := s.claimed
  read s offset count := (s.read offset count, s)
  fault? _ := none
  extent s := s.bytes.size
  read_of_extent_le s offset count h := by
    simp [read_eq_take_drop, List.drop_eq_nil_of_le h]
  extent_read _ _ _ := rfl

end MemorySource

end MarketWire
