import MarketWire.Source.File
import MarketWire.Source.Memory

/-!
# Reads of a file

A file source sets the position of its file only where it reads elsewhere than the last read ended. It
may leave that out because the position it remembers is the one the file has: a read moves both by the
bytes that it gave, also when it comes out short at the end of the file or is for no bytes at all, and
a read from the end on moves neither. So a source for a file that can be read gives what a block of
memory with the same bytes gives, in whatever order it is read.

What a file has to do for that is a law. It is asked only of positions within the file, and of reads
that begin there, since a source never reads from the end on. How a file behaves at its end, and
whether it has to be told to leave it, is therefore open.

## Main definitions

* `InputFile.Serves` — **the law** of files that can be read.
* `Source.readAll` — reads one after another.
* `FileSource.InStep` — **the invariant**: the file stands where the source takes it to be.

## Main results

* `FileHandle.serves` — a file with its contents and position keeps the law.
* `FileSource.InStep.read` — what one read gives, and that it keeps the invariant.
* `FileSource.readAll_agrees_memory` — a file that can be read is read as memory is.
-/

namespace MarketWire

/-! ### Reads one after another -/

/-- Reads one after another, each from an offset and for so many bytes. -/
def Source.readAll {σ : Type} [Source σ] (s : σ) : List (Nat × Nat) → List Bytes × σ
  | [] => ([], s)
  | (offset, count) :: reads =>
    let (bs, s) := Source.read s offset count
    let (rest, last) := readAll s reads
    (bs :: rest, last)

/-- Memory gives the same slices however often it is read. -/
theorem MemorySource.readAll_ofBytes (content : Bytes) (reads : List (Nat × Nat)) :
    Source.readAll (ofBytes content) reads =
      (reads.map fun next => (content.drop next.1).take next.2, ofBytes content) := by
  induction reads with
  | nil => rfl
  | cons next reads ih =>
    rw [Source.readAll, show Source.read (ofBytes content) next.1 next.2 =
      ((ofBytes content).read next.1 next.2, ofBytes content) from rfl, read_eq_take_drop]
    dsimp only
    rw [ih]
    rfl

/-! ### The law -/

/-- What is asked of a file that can be read, `At file position` being that it holds `content` and
stands at the position. Its size can be told, any position up to the end can be set, and a read gives
the bytes that follow the position, as many as there are, and moves behind them. -/
structure InputFile.Serves {φ : Type} [InputFile φ] (content : Bytes) (At : φ → Nat → Prop) :
    Prop where
  /-- The size is that of the contents, and telling it leaves the file at its end. -/
  measure : ∀ {file : φ} {position : Nat}, At file position →
    (InputFile.measure file).1 = content.length ∧ At (InputFile.measure file).2 content.length
  /-- A position within the contents can be set. -/
  seek : ∀ {file : φ} {position offset : Nat}, At file position → offset ≤ content.length →
    (InputFile.seek file offset).1 = none ∧ At (InputFile.seek file offset).2 offset
  /-- A read gives what follows the position, meets no error, and moves behind what it gave. -/
  read : ∀ {file : φ} {position : Nat}, At file position → position < content.length →
    ∀ count, (InputFile.read file count).1 = (content.drop position).take count ∧
      (InputFile.read file count).2.1 = none ∧
      At (InputFile.read file count).2.2 (position + ((content.drop position).take count).length)

/-- **A file with its contents and position keeps the law** unless it cannot be read. -/
theorem FileHandle.serves (content : Bytes) :
    InputFile.Serves content fun (file : FileHandle) position =>
      file.content.toList = content ∧ file.position = position ∧ file.readError = none := by
  refine ⟨?measure, ?seek, ?read⟩
  case measure =>
    rintro file position ⟨rfl, -, hreadable⟩
    exact ⟨rfl, rfl, rfl, hreadable⟩
  case seek =>
    rintro file position offset ⟨hcontent, -, hreadable⟩ -
    exact ⟨rfl, hcontent, rfl, hreadable⟩
  case read =>
    rintro file position ⟨rfl, rfl, hreadable⟩ - count
    simp [InputFile.read, FileHandle.read, hreadable]

namespace FileSource

variable {φ : Type} [InputFile φ]

/-! ### One read -/

/-- What a read gives that sets the position in any case. -/
def readAnew (s : FileSource φ) (offset count : Nat) : Bytes :=
  match s.handle with
  | none => []
  | some file => (InputFile.read (InputFile.seek file offset).2 count).1

/-- A source for a file with the given contents which stands where the source takes it to be, and of
which no read has failed. -/
structure InStep (content : Bytes) (At : φ → Nat → Prop) (s : FileSource φ) : Prop where
  /-- The position of the file is the one that is remembered. -/
  handle : ∃ file, s.handle = some file ∧ At file s.position
  /-- The size is that of the contents. -/
  size_eq : s.size = content.length
  /-- No read has failed. -/
  fault_eq : s.fault = none

variable {content : Bytes} {At : φ → Nat → Prop} {s : FileSource φ}

/-- A source is in step with the file that it is given, wherever that stands. -/
theorem inStep_attach (hserves : InputFile.Serves content At) {file : φ} {position : Nat}
    (hfile : At file position) : InStep content At (attach file) := by
  obtain ⟨hsize, hend⟩ := hserves.measure hfile
  obtain ⟨-, hfront⟩ := hserves.seek hend (Nat.zero_le _)
  exact ⟨⟨_, rfl, hfront⟩, hsize, rfl⟩

/-- Whether the position is set or was left there, the file stands at the offset afterwards. -/
theorem moveTo_of_at (hserves : InputFile.Serves content At) {file : φ} (hfile : At file s.position)
    {offset : Nat} (hoffset : offset ≤ content.length) :
    ∃ moved, s.moveTo file offset = (none, moved) ∧ At moved offset := by
  rw [moveTo]
  split
  · rename_i hsame
    exact ⟨file, rfl, hsame ▸ hfile⟩
  · obtain ⟨herror, hmoved⟩ := hserves.seek hfile hoffset
    exact ⟨_, Prod.ext herror rfl, hmoved⟩

/-- **One read** gives a slice of the contents, and the source stays in step. -/
theorem InStep.read (h : InStep content At s) (hserves : InputFile.Serves content At)
    (offset count : Nat) :
    (s.read offset count).1 = (content.drop offset).take count ∧
      InStep content At (s.read offset count).2 := by
  obtain ⟨file, hhandle, hfile⟩ := h.handle
  rw [FileSource.read, hhandle, h.size_eq]
  dsimp only
  split
  · rename_i hend
    -- From the end on the file is not asked, so nothing about it has to be known there.
    rw [List.drop_eq_nil_of_le hend, List.take_nil]
    exact ⟨rfl, h⟩
  · rename_i hoffset
    obtain ⟨moved, hmove, hmoved⟩ := moveTo_of_at hserves hfile (Nat.le_of_not_le hoffset)
    obtain ⟨hslice, herror, hbehind⟩ := hserves.read hmoved (Nat.lt_of_not_le hoffset) count
    rw [hmove]
    dsimp only
    rw [herror, hslice]
    exact ⟨rfl, ⟨_, rfl, hbehind⟩, rfl, h.fault_eq⟩

/-- Within the contents it makes no difference whether the position is set where it was left. -/
theorem InStep.readAnew_eq (h : InStep content At s) (hserves : InputFile.Serves content At)
    {offset : Nat} (hoffset : offset < content.length) (count : Nat) :
    s.readAnew offset count = (content.drop offset).take count := by
  obtain ⟨file, hhandle, hfile⟩ := h.handle
  obtain ⟨-, hmoved⟩ := hserves.seek hfile (Nat.le_of_lt hoffset)
  rw [readAnew, hhandle]
  exact (hserves.read hmoved hoffset count).1

/-! ### All reads -/

/-- Reads in any order give slices of the contents, and the source stays in step. -/
theorem InStep.readAll (h : InStep content At s) (hserves : InputFile.Serves content At)
    (reads : List (Nat × Nat)) :
    (Source.readAll s reads).1 =
        (reads.map fun next => (content.drop next.1).take next.2) ∧
      InStep content At (Source.readAll s reads).2 := by
  induction reads generalizing s with
  | nil => exact ⟨rfl, h⟩
  | cons next reads ih =>
    obtain ⟨hslice, hnext⟩ := h.read hserves next.1 next.2
    obtain ⟨hslices, hlast⟩ := ih hnext
    refine ⟨?_, hlast⟩
    rw [List.map_cons, ← hslices, ← hslice]
    rfl

/-- **A file that can be read is read as memory is.** Attached or opened, and read in any order, it
gives what memory with the same contents gives: the bytes from each offset up to the end of the read or
of the contents, whichever comes first. Its size stays the same and no fault is left behind. After any
reads the file stands where the source takes it to be, so that the next one gives the same whether or
not it sets the position before. -/
theorem readAll_agrees_memory (hserves : InputFile.Serves content At) {file : φ} {position : Nat}
    (hfile : At file position)
    (hs : s = attach file ∨ ∃ earlier path, s = (openFile earlier path (.ok file)).2)
    (reads : List (Nat × Nat)) :
    let last := (Source.readAll s reads).2
    (Source.readAll s reads).1 = (Source.readAll (MemorySource.ofBytes content) reads).1 ∧
      (Source.readAll s reads).1 = (reads.map fun next =>
        content.extract next.1 (min (next.1 + next.2) content.length)) ∧
      Source.size last = content.length ∧ Source.fault? last = none ∧
      (∃ left, last.handle = some left ∧ At left last.position) ∧
      ∀ offset < content.length, ∀ count,
        (last.read offset count).1 = last.readAnew offset count := by
  intro last
  have hs : s = attach file := by
    rcases hs with hs | ⟨earlier, path, hs⟩
    · exact hs
    · exact hs
  have hstart : InStep content At s := hs ▸ inStep_attach hserves hfile
  obtain ⟨hslices, hlast⟩ := hstart.readAll hserves reads
  refine ⟨?_, ?_, hlast.size_eq, hlast.fault_eq, hlast.handle, ?_⟩
  · rw [hslices, MemorySource.readAll_ofBytes]
  · rw [hslices]
    refine List.map_congr_left fun next _ => ?_
    rw [List.extract_eq_take_drop, ← Nat.sub_min_sub_right, Nat.add_sub_cancel_left,
      ← List.length_drop, ← List.take_eq_take_min]
  · intro offset hoffset count
    rw [(hlast.read hserves offset count).1, hlast.readAnew_eq hserves hoffset]

/-- A file that somebody else has read from. -/
def exampleFile : FileHandle where
  content := #[10, 20, 30, 40, 50, 60]
  position := 4

/-- Reads that overlap, go back, come out short, begin at the end, and are for no bytes. -/
def exampleReads : List (Nat × Nat) :=
  [(0, 4), (4, 10), (1, 2), (3, 0), (3, 2), (6, 1), (5, 1)]

theorem readAll_agrees_memory_exampleFile :
    exampleFile.readError = none ∧
      (Source.readAll (attach exampleFile) exampleReads).1 =
        [[10, 20, 30, 40], [50, 60], [20, 30], [], [40, 50], [], [60]] := by
  have hfile : exampleFile.content.toList = [10, 20, 30, 40, 50, 60] ∧
      exampleFile.position = 4 ∧ exampleFile.readError = none := ⟨rfl, rfl, rfl⟩
  have hagrees := readAll_agrees_memory (FileHandle.serves _) hfile (.inl rfl) exampleReads
  exact ⟨rfl, hagrees.2.1⟩

end FileSource

end MarketWire
