import MarketWire.Source.Basic

/-!
# Files as sources

An open file has a position of its own, which every read moves. A file source knows where it left
that position and sets it only when it has to read elsewhere.

A fault of a read stays until the file is closed or another one takes its place: later reads that
succeed do not take it back.

## Main definitions

* `InputFile` — open files that are read from.
* `FileHandle` — an open file, its contents and its position.
* `FileSource` — a source that reads from a file.
-/

namespace MarketWire

/-! ### Open files -/

/-- Open files that are read from. -/
class InputFile (φ : Type) where
  /-- Goes to the end of the file and tells where that is, or zero if it cannot be told. -/
  measure : φ → Nat × φ
  /-- Sets the position, and says which error was met if it was not possible. -/
  seek : φ → (position : Nat) → Option SystemError × φ
  /-- Reads up to `count` bytes at the position, and says which error was met, if any was. -/
  read : φ → (count : Nat) → Bytes × Option SystemError × φ

/-- A file that is open. Any position within it can be set. -/
structure FileHandle where
  /-- What is in the file. -/
  content : Array UInt8
  /-- The position of the next byte. -/
  position : Nat := 0
  /-- Why the file cannot be read, if it cannot. -/
  readError : Option SystemError := none
  deriving DecidableEq, Repr

namespace FileHandle

/-- Sets the position. -/
def seek (h : FileHandle) (position : Nat) : FileHandle :=
  { h with position := position }

/-- Up to `count` bytes at the position, and the error if there should have been some. -/
def read (h : FileHandle) (count : Nat) : Bytes × Option SystemError × FileHandle :=
  match h.readError with
  | some error => ([], if count = 0 then none else some error, h)
  | none =>
    let bs := (h.content.extract h.position (h.position + count)).toList
    (bs, none, { h with position := h.position + bs.length })

instance : InputFile FileHandle where
  measure h := (h.content.size, h.seek h.content.size)
  seek h position := (none, h.seek position)
  read := read

end FileHandle

/-! ### File sources -/

/-- A source that reads from a file. -/
structure FileSource (φ : Type := FileHandle) where
  /-- The file, unless the source is closed. -/
  handle : Option φ := none
  /-- The size of the file. -/
  size : Nat := 0
  /-- Where the position of the file was left. -/
  position : Nat := 0
  /-- The fault of the last read that failed. -/
  fault : Option Fault := none
  deriving DecidableEq, Repr

namespace FileSource

variable {φ : Type}

/-- A source without a file. -/
def closed : FileSource φ := {}

/-- Gives up the file. -/
def close (_ : FileSource φ) : FileSource φ :=
  closed

variable [InputFile φ]

/-- A source for an open file, which is read from its front. -/
def attach (file : φ) : FileSource φ :=
  let (size, file) := InputFile.measure file
  { handle := some (InputFile.seek file 0).2, size := size }

/-- Gives up the file and takes the one at `path`, which the system found or refused. -/
def openFile (s : FileSource φ) (path : Text) (found : Except SystemError φ) :
    Outcome × FileSource φ :=
  match found with
  | .ok file => (.ok (), attach file)
  | .error error => (.error (.openForReading path error), s.close)

/-- Sets the position of a file, unless it was left there. -/
def moveTo (s : FileSource φ) (file : φ) (offset : Nat) : Option SystemError × φ :=
  if offset = s.position then (none, file) else InputFile.seek file offset

/-- Up to `count` bytes from `offset` on. Only a read that comes out short is asked for its error. -/
def read (s : FileSource φ) (offset count : Nat) : Bytes × FileSource φ :=
  match s.handle with
  | none => ([], s)
  | some file =>
    if s.size ≤ offset then
      ([], s)
    else
      match s.moveTo file offset with
      | (some error, file) =>
        ([], { s with handle := some file, fault := some (.seekFailed offset error) })
      | (none, file) =>
        let (bs, error, file) := InputFile.read file count
        let fault := match error with
          | some error => if bs.length < count then some (.readFailed offset error) else s.fault
          | none => s.fault
        (bs, { s with handle := some file, position := offset + bs.length, fault := fault })

instance : Source (FileSource φ) where
  size s := s.size
  read := read
  fault? s := s.fault
  extent s := s.size
  read_of_extent_le s offset count h := by
    simp only [read]
    split <;> simp [h]
  extent_read s offset count := by
    simp only [read]
    split
    · rfl
    · split
      · rfl
      · split <;> rfl

end FileSource

end MarketWire
