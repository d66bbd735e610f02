import Mathlib.Data.List.DropRight
import MarketWire.Proofs.ArenaQueue

/-!
# Runs of an arena

However an arena is appended to, consumed, compacted and cleared, its unread bytes are those that were
appended since it was cleared for the last time, less as many from the front as were consumed since
then. It does not matter with how many cells it began, where it was compacted, or how much consumed
space lay in front of the read position when it had to grow.

The one thing that callers owe is not to consume more than is unread. A run that keeps to this is
permitted, and in it the positions stay in order. That is also why nothing is copied from or to a
place outside of the cells: the cells of an arena are written and read by total functions, which
would pass over such a place in silence, so the bounds are stated here for the operation about to be
made.

## Main definitions

* `ArenaOp`, `Arena.run` — operations, and runs of them.
* `Arena.Permits` — no more is consumed than is unread.
* `ArenaOp.CopiesInside` — what an operation copies lies within the cells.
* `ArenaOp.recent`, `appendedBytes`, `consumedCount` — what a run has done since the last clearing.

## Main results

* `Arena.Holds.perform` — what one operation does to the unread bytes.
* `Arena.run_refines_queue` — **an arena is a queue of bytes**.
-/

namespace MarketWire

/-- An operation on an arena. -/
inductive ArenaOp
  /-- Write bytes behind the last one. -/
  | append (bs : Bytes)
  /-- Pass over unread bytes. -/
  | consume (size : Nat)
  /-- Move the unread bytes to the front. -/
  | compact
  /-- Forget all bytes. -/
  | clear
  deriving DecidableEq, Repr

namespace ArenaOp

/-- The bytes that an operation appends. -/
def appended : ArenaOp → Bytes
  | .append bs => bs
  | _ => []

/-- The number of bytes that an operation consumes. -/
def consumed : ArenaOp → Nat
  | .consume size => size
  | _ => 0

/-- The operations behind the last clearing. -/
def recent (ops : List ArenaOp) : List ArenaOp :=
  ops.rtakeWhile (· ≠ .clear)

/-- The bytes that were appended since the last clearing. -/
def appendedBytes (ops : List ArenaOp) : Bytes :=
  (recent ops).flatMap appended

/-- The number of bytes that were consumed since the last clearing. -/
def consumedCount (ops : List ArenaOp) : Nat :=
  (recent ops).foldl (fun count op => count + op.consumed) 0

/-- An operation that does not clear is the last one since the clearing. -/
theorem recent_concat {op : ArenaOp} (h : op ≠ .clear) (ops : List ArenaOp) :
    recent (ops ++ [op]) = recent ops ++ [op] := by
  simp [recent, h]

theorem recent_concat_clear (ops : List ArenaOp) : recent (ops ++ [.clear]) = [] := by
  simp [recent]

theorem appendedBytes_concat {op : ArenaOp} (h : op ≠ .clear) (ops : List ArenaOp) :
    appendedBytes (ops ++ [op]) = appendedBytes ops ++ op.appended := by
  simp [appendedBytes, recent_concat h]

theorem consumedCount_concat {op : ArenaOp} (h : op ≠ .clear) (ops : List ArenaOp) :
    consumedCount (ops ++ [op]) = consumedCount ops + op.consumed := by
  simp [consumedCount, recent_concat h]

end ArenaOp

namespace Arena

/-- One operation. -/
def perform (a : Arena) : ArenaOp → Arena
  | .append bs => a.append bs
  | .consume size => a.consume size
  | .compact => a.compact
  | .clear => a.clear

/-- Operations one after another. -/
def run (a : Arena) (ops : List ArenaOp) : Arena :=
  ops.foldl perform a

theorem run_concat (a : Arena) (ops : List ArenaOp) (op : ArenaOp) :
    a.run (ops ++ [op]) = (a.run ops).perform op := by
  simp [run]

/-- At every point of a run no more is consumed than is unread there. -/
def Permits (a : Arena) : List ArenaOp → Prop
  | [] => True
  | op :: ops => op.consumed ≤ a.readableSize ∧ Permits (a.perform op) ops

instance decidablePermits (a : Arena) : (ops : List ArenaOp) → Decidable (a.Permits ops)
  | [] => .isTrue trivial
  | op :: ops =>
    have := decidablePermits (a.perform op) ops
    inferInstanceAs (Decidable (op.consumed ≤ a.readableSize ∧ Permits (a.perform op) ops))

/-- A run is permitted if its first part is and the second one is behind it. -/
theorem permits_append {a : Arena} {ops more : List ArenaOp} :
    a.Permits (ops ++ more) ↔ a.Permits ops ∧ (a.run ops).Permits more := by
  induction ops generalizing a with
  | nil => simp [Permits, run]
  | cons op ops ih => simp [Permits, run, ih, and_assoc]

end Arena

/-- What an operation copies lies within the cells: new bytes within the cells that there are when the
arena has grown, and bytes that are moved within those that there were. What is consumed was
written. -/
def ArenaOp.CopiesInside (a : Arena) : ArenaOp → Prop
  | .append bs => a.writePos + bs.length ≤ (a.append bs).cells.size
  | .consume size => a.readPos + size ≤ a.writePos
  | .compact => a.readPos + a.readableSize ≤ a.cells.size ∧ a.readableSize ≤ a.cells.size
  | .clear => True

namespace Arena

/-! ### One operation -/

/-- An arena whose positions are in order, and whose unread bytes are what was appended less what was
consumed. -/
structure Holds (a : Arena) (appended : Bytes) (consumed : Nat) : Prop where
  /-- The positions are in order. -/
  wellFormed : a.WellFormed
  /-- The unread bytes are what is left of those appended. -/
  readable : a.readable = appended.drop consumed
  /-- No more was consumed than was appended. -/
  consumed_le : consumed ≤ appended.length

variable {a : Arena} {appended : Bytes} {consumed : Nat}

/-- As many bytes are unread as are left. -/
theorem Holds.readableSize_eq (h : Holds a appended consumed) :
    a.readableSize = appended.length - consumed := by
  rw [← length_readable h.wellFormed, h.readable, List.length_drop]

theorem holds_ofCapacity (capacity : Nat) : Holds (ofCapacity capacity) [] 0 :=
  ⟨.ofCapacity capacity, readable_ofCapacity capacity, Nat.le_refl _⟩

theorem Holds.clear (a : Arena) : Holds a.clear [] 0 :=
  ⟨.clear a, readable_clear a, Nat.le_refl _⟩

/-- **One operation that does not clear** puts what it appends behind the bytes and takes what it
consumes from their front. -/
theorem Holds.perform (h : Holds a appended consumed) {op : ArenaOp} (hop : op ≠ .clear)
    (hroom : op.consumed ≤ a.readableSize) :
    Holds (a.perform op) (appended ++ op.appended) (consumed + op.consumed) := by
  obtain ⟨hwell, hreadable, hle⟩ := h
  have hsize := Holds.readableSize_eq ⟨hwell, hreadable, hle⟩
  cases op with
  | append bs =>
    refine ⟨hwell.append bs, ?_, ?_⟩
    · show (a.append bs).readable = (appended ++ bs).drop consumed
      rw [readable_append hwell, hreadable, List.drop_append_of_le_length hle]
    · show consumed ≤ (appended ++ bs).length
      rw [List.length_append]
      omega
  | consume size =>
    have hsize' : size ≤ a.readableSize := hroom
    refine ⟨hwell.consume hsize', ?_, ?_⟩
    · show (a.consume size).readable = (appended ++ []).drop (consumed + size)
      rw [readable_consume, hreadable, List.drop_drop, List.append_nil]
    · show consumed + size ≤ (appended ++ []).length
      rw [List.append_nil]
      omega
  | compact =>
    refine ⟨hwell.compact, ?_, ?_⟩
    · show a.compact.readable = (appended ++ []).drop consumed
      rw [readable_compact hwell, hreadable, List.append_nil]
    · show consumed ≤ (appended ++ []).length
      rwa [List.append_nil]
  | clear => exact absurd rfl hop

theorem writePos_append (a : Arena) (bs : Bytes) :
    (a.append bs).writePos = a.writePos + bs.length := by
  rw [append]
  split
  · rename_i hempty
    simp [List.isEmpty_iff.mp hempty]
  · rfl

/-- An operation that consumes no more than is unread copies within the cells. -/
theorem WellFormed.copiesInside (h : a.WellFormed) {op : ArenaOp}
    (hroom : op.consumed ≤ a.readableSize) : op.CopiesInside a := by
  obtain ⟨hread, hwrite⟩ := h
  cases op with
  | append bs =>
    show a.writePos + bs.length ≤ (a.append bs).cells.size
    rw [← writePos_append]
    exact (WellFormed.append ⟨hread, hwrite⟩ bs).writePos_le
  | consume size =>
    have hsize : size ≤ a.writePos - a.readPos := hroom
    show a.readPos + size ≤ a.writePos
    omega
  | compact =>
    show a.readPos + (a.writePos - a.readPos) ≤ a.cells.size ∧
      a.writePos - a.readPos ≤ a.cells.size
    omega
  | clear => trivial

/-! ### Runs -/

/-- A permitted run leaves what was appended since the last clearing less what was consumed. -/
theorem holds_run (capacity : Nat) {ops : List ArenaOp} (h : (ofCapacity capacity).Permits ops) :
    Holds ((ofCapacity capacity).run ops) (ArenaOp.appendedBytes ops)
      (ArenaOp.consumedCount ops) := by
  -- The last operation is taken off, since the run has its effect on what the others have left.
  induction ops using List.reverseRecOn with
  | nil => exact holds_ofCapacity capacity
  | append_singleton ops op ih =>
    obtain ⟨hops, hroom, -⟩ := permits_append.mp h
    rw [run_concat]
    by_cases hop : op = .clear
    · subst hop
      simp only [ArenaOp.appendedBytes, ArenaOp.consumedCount, ArenaOp.recent_concat_clear]
      exact Holds.clear _
    · rw [ArenaOp.appendedBytes_concat hop, ArenaOp.consumedCount_concat hop]
      exact (ih hops).perform hop hroom

/-- **An arena is a queue of bytes.** At every point of a permitted run the unread bytes are those
appended since the last clearing, less as many from the front as were consumed since then, which
never are more than there were. The positions are in order, compacting would change nothing about
the unread bytes, and what the next operation copies lies within the cells. -/
theorem run_refines_queue (capacity : Nat) {before after : List ArenaOp}
    (h : (ofCapacity capacity).Permits (before ++ after)) :
    let a := (ofCapacity capacity).run before
    a.readable = (ArenaOp.appendedBytes before).drop (ArenaOp.consumedCount before) ∧
      ArenaOp.consumedCount before ≤ (ArenaOp.appendedBytes before).length ∧
      a.readable.length = a.readableSize ∧
      a.readPos ≤ a.writePos ∧ a.writePos ≤ a.cells.size ∧
      a.compact.readable = a.readable ∧
      ∀ next rest, after = next :: rest → next.CopiesInside a := by
  intro a
  obtain ⟨hbefore, hafter⟩ := permits_append.mp h
  have hholds : Holds a _ _ := holds_run capacity hbefore
  have hwell := hholds.wellFormed
  refine ⟨hholds.readable, hholds.consumed_le, length_readable hwell, hwell.readPos_le,
    hwell.writePos_le, readable_compact hwell, ?_⟩
  rintro next rest rfl
  exact hwell.copiesInside hafter.1

/-- An arena without cells that grows, grows again behind consumed space, and is cleared. -/
def exampleOps : List ArenaOp :=
  [.append [1, 2, 3], .consume 2, .append [4, 5], .compact, .consume 1, .clear, .append [6, 7],
    .consume 1]

theorem run_refines_queue_exampleOps :
    (ofCapacity 0).Permits (exampleOps ++ [.compact]) ∧
      ((ofCapacity 0).run exampleOps).readable = [7] := by
  have hpermits : (ofCapacity 0).Permits (exampleOps ++ [.compact]) := by decide +kernel
  have hleft : (ArenaOp.appendedBytes exampleOps).drop (ArenaOp.consumedCount exampleOps) = [7] := by
    decide +kernel
  exact ⟨hpermits, (run_refines_queue 0 hpermits).1.trans hleft⟩

end Arena

end MarketWire
