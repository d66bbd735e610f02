import MarketWire.Bytes.Text

/-!
# The arena

Bytes that have arrived and are not decoded yet lie in an arena: a row of cells with a position up
to which it has been read and one up to which it has been written. Consuming only moves the read
position, so a view into the arena stays put until `compact` moves what is unread to the front.

Seen from outside an arena is a queue of bytes, `readable`. Appending makes the arena at least
twice as large whenever it has to grow.

The positions are plain numbers. That the read position never passes the write position, nor that
one the end of the cells, is a fact about arenas that were built by these operations.
-/

namespace MarketWire

/-- Cells with a read position and a write position. -/
structure Arena where
  /-- The cells. -/
  cells : Array UInt8
  /-- The position of the first unread byte. -/
  readPos : Nat
  /-- The position behind the last byte. -/
  writePos : Nat
  deriving DecidableEq, Repr

namespace Arena

/-- The number of cells that an arena has unless another one is asked for. -/
def defaultCapacity : Nat := 64 * 1024

/-- An empty arena with so many cells. -/
def ofCapacity (capacity : Nat) : Arena where
  cells := Array.replicate capacity 0
  readPos := 0
  writePos := 0

/-- The number of unread bytes. -/
def readableSize (a : Arena) : Nat :=
  a.writePos - a.readPos

/-- The first `size` bytes from the read position on. -/
def peek (a : Arena) (size : Nat) : Bytes :=
  (a.cells.extract a.readPos (a.readPos + size)).toList

/-- The unread bytes. -/
def readable (a : Arena) : Bytes :=
  a.peek a.readableSize

/-- The cells with the given bytes written over them from a position on. -/
def overwrite (cells : Array UInt8) (position : Nat) : Bytes → Array UInt8
  | [] => cells
  | b :: bs => overwrite (cells.setIfInBounds position b) (position + 1) bs

/-- The cells with further ones behind them up to the given number. -/
def enlarge (cells : Array UInt8) (size : Nat) : Array UInt8 :=
  cells ++ Array.replicate (size - cells.size) 0

/-- Writes bytes behind the last one. -/
def append (a : Arena) (bs : Bytes) : Arena :=
  if bs.isEmpty then
    a
  else
    let needed := a.writePos + bs.length
    let cells :=
      if a.cells.size < needed then enlarge a.cells (max needed (a.cells.size * 2)) else a.cells
    { a with cells := overwrite cells a.writePos bs, writePos := needed }

/-- Passes over unread bytes, of which there have to be that many. -/
def consume (a : Arena) (size : Nat) : Arena :=
  { a with readPos := a.readPos + size }

/-- Moves the unread bytes to the front. -/
def compact (a : Arena) : Arena :=
  if a.readPos = 0 then
    a
  else
    { cells := overwrite a.cells 0 a.readable, readPos := 0, writePos := a.readableSize }

/-- Forgets all bytes. -/
def clear (a : Arena) : Arena :=
  { a with readPos := 0, writePos := 0 }

@[simp] theorem readableSize_consume (a : Arena) (size : Nat) :
    (a.consume size).readableSize = a.readableSize - size := by
  simp only [consume, readableSize]
  omega

@[simp] theorem readableSize_compact (a : Arena) : a.compact.readableSize = a.readableSize := by
  simp only [compact]
  split
  · rfl
  · simp [readableSize]

/-- The unread bytes begin at the front of a compacted arena. -/
theorem readPos_compact (a : Arena) : a.compact.readPos = 0 := by
  simp only [compact]
  split <;> trivial

end Arena

end MarketWire
