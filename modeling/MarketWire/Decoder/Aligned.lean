import MarketWire.Bytes.Text

/-!
# Aligned copies

A record is read as words of eight bytes and so has to begin at a multiple of eight. Records that
lie elsewhere in the arena are copied into a store of whole words.

The words in use lie in one block of memory. A store that has no room for further words moves to
another block, and whoever points into the old one points to nothing. So the store reserves its
words when the first record of a call is copied, before the later ones are known: every record has
at least sixteen bytes, and filling one up to whole words adds at most half of its size.
-/

namespace MarketWire

/-- A store of whole words. -/
structure AlignedStore where
  /-- The number of words that can be used without moving the store. -/
  capacity : Nat := 0
  /-- The block of memory that the words lie in. -/
  block : Nat := 0
  /-- The bytes of the words in use. -/
  cells : Array UInt8 := #[]
  deriving DecidableEq, Repr

namespace AlignedStore

/-- The number of bytes of a word. -/
def wordSize : Nat := 8

/-- The number of words that hold so many bytes. -/
def wordsFor (size : Nat) : Nat :=
  (size + wordSize - 1) / wordSize

/-- The number of words that is reserved when so many bytes are still to be decoded. -/
def reservation (remaining : Nat) : Nat :=
  remaining * 3 / (2 * wordSize) + 1

/-- The number of words in use. -/
def used (s : AlignedStore) : Nat :=
  s.cells.size / wordSize

/-- Forgets the copies and keeps the reservation. -/
def clear (s : AlignedStore) : AlignedStore :=
  { s with cells := #[] }

/-- Moves the words in use to another block, which has room for so many. -/
def move (s : AlignedStore) (capacity : Nat) : AlignedStore :=
  { s with capacity := capacity, block := s.block + 1 }

/-- Sees to it that so many words can be used. -/
def reserve (s : AlignedStore) (words : Nat) : AlignedStore :=
  if s.capacity < words then s.move words else s

/-- So many words more can be used without moving the store. -/
def HasRoom (s : AlignedStore) (words : Nat) : Prop :=
  s.used + words ≤ s.capacity

instance (s : AlignedStore) (words : Nat) : Decidable (s.HasRoom words) :=
  inferInstanceAs (Decidable (s.used + words ≤ s.capacity))

/-- Puts bytes into whole words behind those in use. Without room for them the store moves first, to
a block with room for at least twice the words in use. -/
def append (s : AlignedStore) (bs : Bytes) : AlignedStore :=
  let words := wordsFor bs.length
  let roomy := if s.HasRoom words then s else s.move (s.used + max s.used words)
  { roomy with cells := roomy.cells ++ (bs ++ List.replicate (words * wordSize - bs.length) 0) }

/-- Reserves words for all copies of a call before the first of them is made, with `remaining` bytes
still to be decoded. -/
def prepare (s : AlignedStore) (remaining : Nat) : AlignedStore :=
  if s.cells.isEmpty then s.reserve (reservation remaining) else s

/-- Copies a record behind the words in use, with `remaining` bytes still to be decoded, those of
the record included. -/
def copy (s : AlignedStore) (bs : Bytes) (remaining : Nat) : AlignedStore :=
  (s.prepare remaining).append bs

/-- The bytes from a word of a block on, if that is the block that the words lie in. -/
def bytesAt (s : AlignedStore) (block word size : Nat) : Option Bytes :=
  if block = s.block then
    some (s.cells.extract (word * wordSize) (word * wordSize + size)).toList
  else
    none

end AlignedStore

end MarketWire
