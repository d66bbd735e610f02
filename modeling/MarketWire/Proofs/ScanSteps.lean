import MarketWire.Metadata.Scan
import Mathlib.Data.List.Forall2

/-!
# What a walk over a block does

The effect of a walk is described in one of two ways. A walk *looks* if it gives its answer, good or
bad, and leaves the scanner in place. A walk *yields* a value from a byte string if, wherever these
bytes stand before the limit, it gives the value and moves past them. Both say nothing about the
account of what was touched, and both are put together the way walks are.

## Main definitions

* `Scan.Looks` — a walk answers without moving.
* `Scan.Yields` — a walk moves past some bytes and gives a value.

## Main results

* `Scan.Yields.bind` — walks one after another move past bytes one after another.
* `Scan.yields_repeated` — elements in a row.
-/

namespace MarketWire

namespace Scan

variable {α β : Type}

theorem run_bind (scan : Scan α) (next : α → Scan β) (s : Scanner) :
    (scan >>= next).run.run s =
      match scan.run.run s with
      | (.ok a, t) => (next a).run.run t
      | (.error fault, t) => (.error fault, t) := by
  change (match scan.run.run s with | (r, t) => ExceptT.bindCont next r t) = _
  rcases scan.run.run s with ⟨_ | a, t⟩ <;> rfl

/-! ### Looking -/

/-- The walk answers and stays where it is. -/
def Looks (scan : Scan α) (s : Scanner) (answer : Except Fault α) : Prop :=
  ∃ touches, scan.run.run s = (answer, { s with touches := touches })

theorem Looks.pure (a : α) (s : Scanner) : Looks (Pure.pure a) s (.ok a) :=
  ⟨s.touches, rfl⟩

theorem Looks.throw (fault : Fault) (s : Scanner) :
    Looks (throw fault : Scan α) s (.error fault) :=
  ⟨s.touches, rfl⟩

theorem looks_look (ahead width : Nat) (s : Scanner) :
    Looks (look ahead width) s (.ok (s.rest.window ahead width)) :=
  ⟨_, rfl⟩

theorem looks_remaining (s : Scanner) : Looks remaining s (.ok (s.limit - s.offset)) :=
  ⟨_, rfl⟩

/-- A walk that looks is followed by the next one from the same place. -/
theorem Looks.exists_run_bind {scan : Scan α} {s : Scanner} {a : α} (hscan : Looks scan s (.ok a))
    (next : α → Scan β) :
    ∃ touches, (scan >>= next).run.run s = (next a).run.run { s with touches := touches } := by
  obtain ⟨touches, hrun⟩ := hscan
  exact ⟨touches, by rw [run_bind, hrun]⟩

theorem Looks.bind {scan : Scan α} {next : α → Scan β} {s : Scanner} {a : α}
    {answer : Except Fault β} (hscan : Looks scan s (.ok a))
    (hnext : ∀ touches, Looks (next a) { s with touches := touches } answer) :
    Looks (scan >>= next) s answer := by
  obtain ⟨touches, hrun⟩ := hscan.exists_run_bind next
  obtain ⟨touches', hrun'⟩ := hnext touches
  exact ⟨touches', hrun.trans hrun'⟩

theorem Looks.bind_error {scan : Scan α} {s : Scanner} {fault : Fault}
    (hscan : Looks scan s (.error fault)) (next : α → Scan β) :
    Looks (scan >>= next) s (.error fault) := by
  obtain ⟨touches, hrun⟩ := hscan
  exact ⟨touches, by rw [run_bind, hrun]⟩

/-! ### Moving past bytes -/

/-- Wherever the bytes stand before the limit, the walk gives the value and moves past them. -/
def Yields (scan : Scan α) (bs : Bytes) (a : α) : Prop :=
  ∀ s rest, s.rest = bs ++ rest → s.offset + bs.length ≤ s.limit →
    ∃ touches, scan.run.run s = (.ok a, ⟨rest, s.offset + bs.length, s.limit, touches⟩)

theorem Yields.pure (a : α) : Yields (Pure.pure a) [] a := by
  rintro ⟨_, offset, limit, touches⟩ rest rfl _
  exact ⟨touches, rfl⟩

theorem Yields.bind {scan : Scan α} {next : α → Scan β} {bs more : Bytes} {a : α} {b : β}
    (hscan : Yields scan bs a) (hnext : Yields (next a) more b) :
    Yields (scan >>= next) (bs ++ more) b := by
  intro s rest hrest hlimit
  rw [List.length_append] at hlimit
  obtain ⟨touches, hrun⟩ := hscan s (more ++ rest) (by rw [hrest, List.append_assoc]) (by omega)
  obtain ⟨touches', hrun'⟩ := hnext ⟨more ++ rest, s.offset + bs.length, s.limit, touches⟩ rest rfl
    (by dsimp only; omega)
  refine ⟨touches', ?_⟩
  rw [run_bind, hrun, List.length_append, ← Nat.add_assoc]
  exact hrun'

/-- The last step of a walk may judge the value without moving. -/
theorem Yields.bind_nil {scan : Scan α} {next : α → Scan β} {bs : Bytes} {a : α} {b : β}
    (hscan : Yields scan bs a) (hnext : Yields (next a) [] b) : Yields (scan >>= next) bs b := by
  have h := hscan.bind hnext
  rwa [List.append_nil] at h

/-- The last step of a walk may work on the value. -/
theorem Yields.bind_pure {scan : Scan α} {bs : Bytes} {a : α} (hscan : Yields scan bs a)
    (f : α → β) : Yields (scan >>= fun a => Pure.pure (f a)) bs (f a) :=
  hscan.bind_nil (Yields.pure (f a))

/-- A walk may look at what is ahead before it moves past it. -/
theorem Yields.of_looks {scan : Scan α} {next : α → Scan β} {bs : Bytes} {b : β}
    (h : ∀ s rest, s.rest = bs ++ rest → s.offset + bs.length ≤ s.limit →
      ∃ a, Looks scan s (.ok a) ∧ Yields (next a) bs b) :
    Yields (scan >>= next) bs b := by
  intro s rest hrest hlimit
  obtain ⟨a, ⟨touches, hrun⟩, hnext⟩ := h s rest hrest hlimit
  obtain ⟨touches', hrun'⟩ := hnext { s with touches := touches } rest hrest hlimit
  exact ⟨touches', by rw [run_bind, hrun]; exact hrun'⟩

/-! ### Fields -/

variable {bs : Bytes} {width : Nat}

theorem yields_skip (h : bs.length = width) : Yields (skip width) bs () := by
  rintro ⟨_, offset, limit, touches⟩ rest rfl _
  refine ⟨touches, ?_⟩
  subst h
  change (Except.ok (), Scanner.mk _ _ _ _) = _
  rw [List.drop_left]

theorem yields_take (h : bs.length = width) : Yields (take width) bs bs := by
  rintro ⟨_, offset, limit, touches⟩ rest rfl _
  refine ⟨.read (offset + 0) width :: touches, ?_⟩
  subst h
  have hwindow : Bytes.window (bs ++ rest) 0 bs.length = bs := by
    rw [Bytes.window_eq_take_drop (by simp), List.drop_zero, List.take_left]
  change (Except.ok (Bytes.window (bs ++ rest) 0 bs.length), Scanner.mk _ _ _ _) = _
  rw [hwindow, List.drop_left]

theorem yields_number (h : bs.length = width) :
    Yields (number width) bs (LittleEndian.decode bs) :=
  (yields_take h).bind_pure _

/-- A number is read back from a field that has room for it. -/
theorem yields_number_encode {n : Nat} (h : n < LittleEndian.modulus width) :
    Yields (number width) (LittleEndian.encode width n) n := by
  have hnumber := yields_number (LittleEndian.length_encode width n)
  rwa [LittleEndian.decode_encode, Nat.mod_eq_of_lt h] at hnumber

theorem yields_text (h : bs.length = width) : Yields (text width) bs (FixedText.decode bs) :=
  (yields_take h).bind_pure _

theorem yields_word (short : Nat → Fault) (h : bs.length = 4) :
    Yields (word short) bs (LittleEndian.decode bs) := by
  refine Yields.of_looks fun s rest _ hlimit => ⟨_, looks_remaining s, ?_⟩
  rw [if_neg (by omega)]
  exact yields_number h

theorem yields_checkedText (h : bs.length = width) :
    Yields (checkedText width) bs (FixedText.decode bs) := by
  refine Yields.of_looks fun s rest _ hlimit => ⟨_, looks_remaining s, ?_⟩
  rw [if_neg (by omega)]
  exact yields_text h

/-- A count is believed when its elements fit into what is left. -/
theorem looks_ensure {count unit : Nat} (excess : Nat → Fault) {s : Scanner}
    (h : count * unit ≤ s.limit - s.offset) : Looks (ensure count unit excess) s (.ok ()) := by
  refine Looks.bind (a := ()) ⟨_, rfl⟩ fun touches => ?_
  refine (looks_remaining _).bind fun touches' => ?_
  dsimp only
  rw [if_neg (Nat.not_lt.mpr h)]
  exact ⟨_, rfl⟩

theorem Yields.ensure {count unit : Nat} {excess : Nat → Fault} {scan : Scan α} {a : α}
    (hscan : Yields scan bs a) (h : count * unit ≤ bs.length) :
    Yields (do ensure count unit excess; scan) bs a :=
  Yields.of_looks fun _ _ _ hlimit => ⟨(), looks_ensure excess (by omega), hscan⟩

/-- **Elements in a row.** -/
theorem yields_repeated {element : Scan α} {parts : List Bytes} {values : List α}
    (h : List.Forall₂ (Yields element) parts values) :
    Yields (repeated element values.length) parts.flatten values := by
  induction h with
  | nil => exact Yields.pure []
  | cons hfirst _ ih => exact hfirst.bind (ih.bind_pure _)

end Scan

end MarketWire
