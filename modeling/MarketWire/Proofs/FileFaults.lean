import MarketWire.Source.File

/-!
# What a file source says of its reads

A file source writes down the fault of a read that fails, and nothing ever takes it back but opening or
closing a file. So what it shows is the fault of the last read that failed since then, and not that of
the last read: this is described only if it failed itself or none before it has. A read that begins at
the end, or that comes out short there, does not fail, but it leaves an earlier fault standing.

No law is asked of the files here. Setting a position may fail, a read may give fewer bytes than it was
asked for with an error or without one, and a file that failed may be read again.

## Main definitions

* `FileSource.failure?` — what goes wrong in a read.
* `FileSource.Use`, `FileSource.run` — files opened and closed, and reads, in any order.
* `FileSource.failures` — what went wrong since a file was opened or closed.

## Main results

* `FileSource.fault_read` — a read that fails takes the place of the earlier fault.
* `FileSource.fault_run` — what is shown is what went wrong last.
* `FileSource.fault_read_eq_failure_iff` — when the last read is described.
* `FileSource.fault_read_at_end` — where it is not.
-/

namespace MarketWire

namespace FileSource

variable {φ : Type} [InputFile φ]

/-! ### One read -/

/-- What goes wrong in a read: the position cannot be set, or fewer bytes are given than were asked for
and the file says why. Nothing goes wrong where the file is not asked at all. -/
def failure? (s : FileSource φ) (offset count : Nat) : Option Fault :=
  match s.handle with
  | none => none
  | some file =>
    if s.size ≤ offset then
      none
    else
      match s.moveTo file offset with
      | (some error, _) => some (.seekFailed offset error)
      | (none, file) =>
        match InputFile.read file count with
        | (_, none, _) => none
        | (bs, some error, _) => if bs.length < count then some (.readFailed offset error) else none

theorem failure?_of_size_le {s : FileSource φ} {offset : Nat} (h : s.size ≤ offset) (count : Nat) :
    s.failure? offset count = none := by
  rw [failure?]
  split
  · rfl
  · exact if_pos h

/-- What goes wrong in a read is a failure to read. -/
theorem kind_of_mem_failure? {s : FileSource φ} {offset count : Nat} {fault : Fault}
    (h : fault ∈ s.failure? offset count) : fault.kind = .readFailed := by
  rw [failure?] at h
  split at h
  · cases h
  split at h
  · cases h
  split at h
  · cases h
    rfl
  split at h
  · cases h
  split at h
  · cases h
    rfl
  · cases h

/-- **A read that fails** puts its fault in the place of the earlier one, and any other read leaves
that standing. -/
theorem fault_read (s : FileSource φ) (offset count : Nat) :
    (s.read offset count).2.fault = (s.failure? offset count).or s.fault := by
  rw [read, failure?]
  cases s.handle with
  | none => rfl
  | some file =>
    dsimp only
    split
    · rfl
    · rcases s.moveTo file offset with ⟨_ | error, moved⟩
      · dsimp only
        rcases InputFile.read moved count with ⟨bs, _ | error, left⟩
        · rfl
        · dsimp only
          split <;> rfl
      · rfl

/-! ### Runs -/

/-- One use of a file source. -/
inductive Use (φ : Type)
  /-- Take the file at a path, which the system found or refused. -/
  | openFile (path : Text) (found : Except SystemError φ)
  /-- Give up the file. -/
  | close
  /-- Read from an offset. -/
  | read (offset count : Nat)

/-- One use. -/
def perform (s : FileSource φ) : Use φ → FileSource φ
  | .openFile path found => (s.openFile path found).2
  | .close => s.close
  | .read offset count => (s.read offset count).2

/-- Uses one after another. -/
def run (s : FileSource φ) (uses : List (Use φ)) : FileSource φ :=
  uses.foldl perform s

/-- What went wrong in the reads since a file was opened or closed, the last one at the end. What was
known before the uses counts until a file is opened or closed. -/
def failures (known : List Fault) (s : FileSource φ) : List (Use φ) → List Fault
  | [] => known
  | .read offset count :: uses =>
    failures (known ++ (s.failure? offset count).toList) (s.perform (.read offset count)) uses
  | .openFile path found :: uses => failures [] (s.perform (.openFile path found)) uses
  | .close :: uses => failures [] (s.perform .close) uses

theorem fault_openFile (s : FileSource φ) (path : Text) (found : Except SystemError φ) :
    (s.openFile path found).2.fault = none := by
  cases found <;> rfl

/-- **What is shown is what went wrong last** since a file was opened or closed. -/
theorem fault_run {s : FileSource φ} {known : List Fault} (h : s.fault = known.getLast?)
    (uses : List (Use φ)) : (s.run uses).fault = (failures known s uses).getLast? := by
  -- What is known goes along: a read that fails adds to it, opening and closing empty it.
  induction uses generalizing s known with
  | nil => exact h
  | cons use uses ih =>
    cases use with
    | openFile path found => exact ih (fault_openFile s path found)
    | close => exact ih rfl
    | read offset count =>
      refine ih ?_
      rw [perform, fault_read, h, List.getLast?_append]
      cases s.failure? offset count <;> rfl

/-- A source as it begins: without a file, or attached to one. -/
def start : Option φ → FileSource φ
  | none => closed
  | some file => attach file

/-- **When the last read is described.** Whatever was opened, closed and read before, a source shows
after a read what went wrong in it, and if nothing did, what went wrong last since a file was opened or
closed. That describes the read exactly if it failed or none has failed since then. What is shown is
always a failure to read, and a read from the end on does not fail. -/
theorem fault_read_eq_failure_iff (file : Option φ) (uses : List (Use φ)) (offset count : Nat) :
    let s := (start file).run uses
    let shown := (s.read offset count).2.fault
    let failed := s.failure? offset count
    let earlier := failures [] (start file) uses
    shown = failed.or earlier.getLast? ∧
      (shown = failed ↔ failed.isSome ∨ earlier = []) ∧
      (∀ fault ∈ failed, fault.kind = .readFailed) ∧ (s.size ≤ offset → failed = none) := by
  intro s shown failed earlier
  have hstart : (start file).fault = none := by
    cases file <;> rfl
  have hearlier : s.fault = earlier.getLast? := fault_run hstart uses
  have hshown : shown = failed.or earlier.getLast? := by
    rw [← hearlier]
    exact fault_read s offset count
  refine ⟨hshown, ?_, fun fault hfault => kind_of_mem_failure? hfault,
    fun hend => failure?_of_size_le hend count⟩
  rw [hshown]
  cases hfailed : failed with
  | some fault => simp
  | none => simp

/-- A file that cannot be read is read, and then read again from its end on. Nothing goes wrong in the
second read, which does not ask the file, and yet the source shows the fault of the first. -/
theorem fault_read_at_end :
    let file : FileHandle := { content := #[10, 11], readError := some .badDescriptor }
    let s := (start (some file)).run [.read 0 1]
    s.failure? 2 1 = none ∧ (s.read 2 1).2.fault = some (.readFailed 0 .badDescriptor) := by
  decide

end FileSource

end MarketWire
