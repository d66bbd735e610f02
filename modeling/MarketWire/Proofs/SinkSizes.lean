import Mathlib.Algebra.GroupWithZero.Nat
import MarketWire.Sink.Buffer
import MarketWire.Sink.File
import MarketWire.Sink.Stream

/-!
# What the size of a sink counts

The size of a sink goes up by every write that succeeds, and is zero again where the sink begins anew.
For a buffer and for an output stream that is all. A file sink also counts what the system took of a
write that failed: it is in the file, or was, but the write did not succeed. So its size is that of the
writes that succeeded exactly if nothing was taken of any of the others.

Nothing is assumed of the files and streams. A file may take any number of bytes, and a stream may keep
a part and fail, or have failed before.

A sink may be begun anew in different ways, which are calls like any others: a file can be opened, in
vain too, attached, or given up, and a buffer can be cleared. A stream cannot, and ending its use is a
flush.

## Main definitions

* `Sink.Call`, `Sink.Account` — calls of a sink, and what they amount to.
* `Sink.tally` — calls one after another, with the account of them.
* `Sink.Counts` — **the law**: how one call changes the size.

## Main results

* `Sink.Counts.tally` — the size agrees with the account.
* `BufferSink.counts`, `StreamSink.counts`, `FileSink.counts` — all sinks keep the law.
* `FileSink.size_tally` — what each of them counts.
* `FileSink.size_after_short_write` — a write that failed and was counted.
-/

namespace MarketWire

namespace Sink

/-! ### Accounts -/

/-- A call of a sink. The ways to begin it anew are those of `ρ`. -/
inductive Call (ρ : Type)
  /-- Write bytes, or none. -/
  | write (bs : Bytes)
  /-- Flush the sink. -/
  | flush
  /-- Begin anew. -/
  | restart (how : ρ)

/-- What was written since a sink was begun. -/
structure Account where
  /-- The number of bytes of the writes that succeeded. -/
  succeeded : Nat := 0
  /-- How many bytes were taken of each write that failed. -/
  parts : List Nat := []
  deriving DecidableEq

section Tally

variable {σ ρ : Type} [Sink σ] (restart : ρ → σ → σ) (part : σ → Bytes → Nat)

/-- One call. -/
def perform (s : σ) : Call ρ → σ
  | .write bs => (write s bs).2
  | .flush => (flush s).2
  | .restart how => restart how s

/-- The account after one more call, `part` telling how much is taken of a write that fails. -/
def Account.add (a : Account) (s : σ) : Call ρ → Account
  | .write bs =>
    match (write s bs).1 with
    | .ok () => { a with succeeded := a.succeeded + bs.length }
    | .error _ => { a with parts := a.parts ++ [part s bs] }
  | .flush => a
  | .restart _ => {}

/-- Calls one after another, with the account of them. -/
def tally (s : σ) (a : Account) : List (Call ρ) → σ × Account
  | [] => (s, a)
  | call :: calls => tally (perform restart s call) (a.add part s call) calls

/-- How one call changes the size: a write that succeeds adds its bytes, and one that fails what is
taken of it. -/
structure Counts : Prop where
  /-- A write of some bytes adds what is taken of it. -/
  accept : ∀ (s : σ) {bs : Bytes}, bs ≠ [] →
    size (accept s bs).2 = size s + match (accept s bs).1 with
      | .ok () => bs.length
      | .error _ => part s bs
  /-- A flush adds nothing. -/
  flush : ∀ s : σ, size (flush s).2 = size s
  /-- A sink that is begun anew has counted nothing. -/
  restart : ∀ (how : ρ) (s : σ), size (restart how s) = 0

variable {restart part}

/-- One call changes the size and the account alike. -/
theorem Counts.perform (h : Counts restart part) {s : σ} {a : Account}
    (hsize : size s = a.succeeded + a.parts.sum) (call : Call ρ) :
    size (perform restart s call) = (a.add part s call).succeeded + (a.add part s call).parts.sum := by
  cases call with
  | flush => exact (h.flush s).trans hsize
  | restart how => exact h.restart how s
  | write bs =>
    -- A write of no bytes succeeds without a sink being asked, so the law is silent about it.
    by_cases hbs : bs = []
    · rw [hbs]
      exact hsize
    · have hwrite : write s bs = Sink.accept s bs := if_neg (by simpa using hbs)
      have haccept := h.accept s hbs
      rw [Sink.perform, Account.add, hwrite, haccept, hsize]
      cases (Sink.accept s bs).1 with
      | ok => exact Nat.add_right_comm _ _ _
      | error fault => simp [Nat.add_assoc]

/-- **The size agrees with the account**, whatever is called. -/
theorem Counts.tally (h : Counts restart part) {s : σ} {a : Account}
    (hsize : size s = a.succeeded + a.parts.sum) (calls : List (Call ρ)) :
    let last := tally restart part s a calls
    size last.1 = last.2.succeeded + last.2.parts.sum := by
  induction calls generalizing s a with
  | nil => exact hsize
  | cons call calls ih => exact ih (h.perform hsize call)

/-- Where a write that fails takes nothing, nothing was taken of any of them. -/
theorem sum_parts_tally {s : σ} {a : Account} (h : a.parts.sum = 0) (calls : List (Call ρ)) :
    (Sink.tally restart (fun _ _ => 0) s a calls).2.parts.sum = 0 := by
  induction calls generalizing s a with
  | nil => exact h
  | cons call calls ih =>
    refine ih ?_
    cases call with
    | flush => exact h
    | restart how => rfl
    | write bs =>
      rw [Account.add]
      split
      · exact h
      · simpa using h

end Tally

end Sink

/-! ### The sinks -/

/-- A buffer counts what is written since it was cleared. -/
theorem BufferSink.counts :
    Sink.Counts (fun (_ : Unit) (s : BufferSink) => s.clear) fun _ _ => 0 := by
  refine ⟨fun s bs _ => ?_, fun _ => rfl, fun _ _ => rfl⟩
  show (s.content ++ bs).size = s.content.size + bs.length
  rw [← Array.length_toList, Array.toList_appendList, List.length_append, Array.length_toList]

/-- A stream counts the writes after which it has not failed. -/
theorem StreamSink.counts {τ : Type} [OutputStream τ] :
    Sink.Counts (fun (how : Empty) (_ : StreamSink τ) => how.elim) fun _ _ => 0 := by
  refine ⟨fun s bs _ => ?_, fun _ => rfl, fun how => how.elim⟩
  simp only [Sink.accept, StreamSink.accept, check]
  split <;> rfl

namespace FileSink

variable {φ : Type} [OutputFile φ]

/-- The ways to begin a file sink anew. -/
inductive Restart (φ : Type)
  /-- Take the file at a path, which the system created or refused. -/
  | openFile (path : Text) (created : Except SystemError φ)
  /-- Take a file that is open. -/
  | attach (file : φ)
  /-- Give up the file. -/
  | release

/-- Begins a file sink anew. -/
def restart (how : Restart φ) (s : FileSink φ) : FileSink φ :=
  match how with
  | .openFile path created => (s.openFile path created).2
  | .attach file => attach file
  | .release => s.release.2

/-- What the system takes of a write. -/
def part (s : FileSink φ) (bs : Bytes) : Nat :=
  match s.file with
  | none => 0
  | some file => (OutputFile.put file bs).1

/-- A file sink counts what the system takes, also of a write that fails. -/
theorem counts : Sink.Counts restart (part (φ := φ)) := by
  refine ⟨fun s bs _ => ?accept, fun s => ?flush, fun how s => ?restart⟩
  case accept =>
    obtain ⟨file?, size⟩ := s
    cases file? with
    | none => rfl
    | some file =>
      simp only [Sink.accept, Sink.size, accept, part]
      rcases OutputFile.put file bs with ⟨taken, error, left⟩
      dsimp only
      split
      · rename_i hall
        rw [hall]
      · rfl
  case flush =>
    obtain ⟨file?, size⟩ := s
    cases file? with
    | none => rfl
    | some file =>
      simp only [Sink.flush, Sink.size, flush]
      rcases OutputFile.flush file with ⟨_ | error, left⟩ <;> rfl
  case restart =>
    cases how with
    | openFile path created => cases created <;> rfl
    | attach file => rfl
    | release => rfl

/-- **What sinks count.** Whatever is written, flushed and begun anew, and whatever the file or stream
makes of it, the size of a buffer and of a stream is the number of bytes of the writes that succeeded
since it was begun. That of a file sink is this number and what was taken of the writes that failed; so
it is the number itself exactly if nothing was taken of any of those. -/
theorem size_tally {τ : Type} [OutputStream τ] (buffered : List (Sink.Call Unit)) (stream : τ)
    (streamed : List (Sink.Call Empty)) (filed : List (Sink.Call (Restart φ))) :
    let buffer := Sink.tally (fun _ s => s.clear) (fun _ _ => 0) ({} : BufferSink) {} buffered
    let kept := Sink.tally (fun how _ => how.elim) (fun _ _ => 0)
      ({ stream := stream } : StreamSink τ) {} streamed
    let file := Sink.tally restart part (closed : FileSink φ) {} filed
    Sink.size buffer.1 = buffer.2.succeeded ∧
      Sink.size kept.1 = kept.2.succeeded ∧
      Sink.size file.1 = file.2.succeeded + file.2.parts.sum ∧
      (Sink.size file.1 = file.2.succeeded ↔ ∀ taken ∈ file.2.parts, taken = 0) := by
  intro buffer kept file
  have hbuffer : Sink.size buffer.1 = buffer.2.succeeded + buffer.2.parts.sum :=
    BufferSink.counts.tally rfl buffered
  have hkept : Sink.size kept.1 = kept.2.succeeded + kept.2.parts.sum :=
    StreamSink.counts.tally rfl streamed
  have hfile : Sink.size file.1 = file.2.succeeded + file.2.parts.sum := counts.tally rfl filed
  refine ⟨?_, ?_, hfile, ?_⟩
  · rw [hbuffer, Sink.sum_parts_tally rfl, Nat.add_zero]
  · rw [hkept, Sink.sum_parts_tally rfl, Nat.add_zero]
  · rw [hfile, Nat.add_eq_left, List.sum_eq_zero_iff_forall_eq_nat]

/-- One byte is written to a file on a device without free space, and then five bytes. The first write
stays in the buffer. The second one fails when the buffer is full, but its first three bytes were taken
by then and are counted. -/
theorem size_after_short_write :
    let file : BufferedFile := { blockSize := 4, storeError := some .noSpace }
    let calls : List (Sink.Call (Restart BufferedFile)) :=
      [.restart (.attach file), .write [0], .write [1, 2, 3, 4, 5]]
    let last := Sink.tally restart part closed {} calls
    Sink.size last.1 = 4 ∧ last.2.succeeded = 1 ∧ last.2.parts = [3] := by
  decide

end FileSink

end MarketWire
