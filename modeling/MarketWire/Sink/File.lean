import MarketWire.Sink.Basic

/-!
# Files as sinks

The system may take fewer bytes than it was given. A file sink counts those that were taken, also
when the write as a whole failed.

## Main definitions

* `OutputFile` — open files that are written to.
* `BufferedFile` — a file whose writes stay in a buffer until it is flushed.
* `FileSink` — a sink that writes to a file.
-/

namespace MarketWire

/-! ### Open files -/

/-- Open files that are written to. -/
class OutputFile (φ : Type) where
  /-- Writes bytes, and says how many were taken and which error was met if these are not all. -/
  put : φ → Bytes → Nat × SystemError × φ
  /-- Passes on what was written, and says which error was met if it was not possible. -/
  flush : φ → Option SystemError × φ

/-- A file whose writes stay in a buffer until it is full or flushed. What cannot be stored then is
lost. -/
structure BufferedFile where
  /-- What was stored. -/
  stored : Array UInt8 := #[]
  /-- What was taken and not stored yet. -/
  buffered : Array UInt8 := #[]
  /-- The size of the blocks in which the file is stored. -/
  blockSize : Nat := 4096
  /-- The size of the buffer, which is one block from the first write on. -/
  capacity : Nat := 0
  /-- Why nothing is taken, if so. -/
  writeError : Option SystemError := none
  /-- Why nothing can be stored, if so. -/
  storeError : Option SystemError := none
  deriving DecidableEq, Repr

namespace BufferedFile

/-- Stores what was taken, if anything was. -/
def flush (f : BufferedFile) : Option SystemError × BufferedFile :=
  if f.buffered.isEmpty then
    (none, f)
  else
    match f.storeError with
    | some error => (some error, { f with buffered := #[] })
    | none => (none, { f with stored := f.stored ++ f.buffered, buffered := #[] })

/-- Stores whole blocks at once, with nothing in the buffer, and keeps the rest there. -/
def putBlocks (f : BufferedFile) (bs : Bytes) : Option SystemError × BufferedFile :=
  let size := bs.length - bs.length % f.blockSize
  match if size = 0 then none else f.storeError with
  | some error => (some error, f)
  | none =>
    (none, { f with stored := f.stored ++ bs.take size, buffered := (bs.drop size).toArray })

/-- Takes bytes: first those that fit into the buffer. If there are more the buffer is stored and then
they are, in whole blocks. Where that is not possible, the first ones still count as taken. -/
def put (f : BufferedFile) (bs : Bytes) : Nat × SystemError × BufferedFile :=
  match f.writeError with
  | some error => (0, error, f)
  | none =>
    let room := f.capacity - f.buffered.size
    let f := { f with buffered := f.buffered ++ bs.take room }
    if bs.length ≤ room then
      (bs.length, .success, f)
    else
      match f.flush with
      | (some error, f) => (room, error, f)
      | (none, f) =>
        match { f with capacity := f.blockSize }.putBlocks (bs.drop room) with
        | (some error, f) => (room, error, f)
        | (none, f) => (bs.length, .success, f)

instance : OutputFile BufferedFile where
  put := put
  flush := flush

end BufferedFile

/-! ### Sinks -/

/-- A sink that writes to a file. -/
structure FileSink (φ : Type) where
  /-- The file, if there is one. -/
  file : Option φ := none
  /-- The number of bytes that the file took. -/
  size : Nat := 0
  deriving DecidableEq, Repr

namespace FileSink

variable {φ : Type}

/-- A sink without a file. -/
def closed : FileSink φ := {}

/-- A sink for an open file. -/
def attach (file : φ) : FileSink φ where
  file := some file

variable [OutputFile φ]

/-- Gives up the file, which is flushed, and forgets the count. -/
def release (s : FileSink φ) : Option φ × FileSink φ :=
  (s.file.map fun file => (OutputFile.flush file).2, closed)

/-- Gives up the file and takes the one at `path`, which the system created or refused. -/
def openFile (s : FileSink φ) (path : Text) (created : Except SystemError φ) :
    Outcome × FileSink φ :=
  match created with
  | .ok file => (.ok (), attach file)
  | .error _ => (.error (.openForWriting path), s.release.2)

/-- Writes to the file. Without a file nothing is taken. -/
def accept (s : FileSink φ) (bs : Bytes) : Outcome × FileSink φ :=
  match s.file with
  | none => (.error (.writeFailed (Text.ofAscii "fwrite") .badDescriptor), s)
  | some file =>
    let (taken, error, file) := OutputFile.put file bs
    let s := { s with file := some file, size := s.size + taken }
    if taken = bs.length then
      (.ok (), s)
    else
      (.error (.ofWriteError (Text.ofAscii "fwrite") error), s)

/-- Flushes the file, if there is one. -/
def flush (s : FileSink φ) : Outcome × FileSink φ :=
  match s.file with
  | none => (.ok (), s)
  | some file =>
    match OutputFile.flush file with
    | (none, file) => (.ok (), { s with file := some file })
    | (some error, file) =>
      (.error (.ofWriteError (Text.ofAscii "fflush") error), { s with file := some file })

instance : Sink (FileSink φ) where
  accept := accept
  flush := flush
  size := FileSink.size

end FileSink

end MarketWire
