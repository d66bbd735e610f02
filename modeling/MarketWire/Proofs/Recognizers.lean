import MarketWire.Proofs.ScanSteps
import Mathlib.Logic.Equiv.Defs

/-!
# Walks that recognize a grammar

A grammar is given by the pieces that may stand at a place and the bytes of each piece. A walk
recognizes it if it reads every piece and fails where none stands, and then in one way, whatever lies
beyond the limit. Two pieces of one grammar never begin the same byte string, so what is read is
told by the bytes.

The fixed fields of a block are read without a bounds check, so a walk may need some room ahead of
it. The room is part of the notion: nothing is said about places with less of it.

## Main definitions

* `Scan.Fails` — a walk fails whatever lies beyond the limit.
* `Scan.Recognizes` — a walk reads the pieces of a grammar and nothing else.

## Main results

* `Scan.Recognizes.bind_sigma` — walks one after another recognize pieces one after another.
* `Scan.Recognizes.repeated` — elements in a row.
-/

namespace MarketWire

/-- A byte string of a fixed width. -/
abbrev FixedBytes (width : Nat) := {bs : Bytes // bs.length = width}

/-- A list of a known length that is not empty is its head and its tail. -/
def headAndTail {σ : Type} (n : Nat) :
    {cs : List σ // cs.length = n + 1} ≃ σ × {cs : List σ // cs.length = n} where
  toFun cs := (cs.1.head (List.ne_nil_of_length_eq_add_one cs.2),
    ⟨cs.1.tail, by rw [List.length_tail, cs.2, Nat.add_sub_cancel]⟩)
  invFun p := ⟨p.1 :: p.2.1, by rw [List.length_cons, p.2.2]⟩
  left_inv cs := Subtype.ext (List.cons_head_tail _)
  right_inv _ := rfl

namespace Scan

variable {α β σ τ : Type}

/-! ### Failing -/

/-- The walk fails at the bytes up to the limit, in one way whatever lies beyond it. -/
def Fails (scan : Scan α) (offset : Nat) (inside : Bytes) : Prop :=
  ∃ fault, ∀ beyond touches, ∃ last,
    scan.run.run ⟨inside ++ beyond, offset, offset + inside.length, touches⟩ = (.error fault, last)

theorem fails_throw (fault : Fault) (offset : Nat) (inside : Bytes) :
    Fails (throw fault : Scan α) offset inside :=
  ⟨fault, fun _ _ => ⟨_, rfl⟩⟩

/-- A walk whose first step fails. -/
theorem Fails.bind {scan : Scan α} {offset : Nat} {inside : Bytes} (h : Fails scan offset inside)
    (next : α → Scan β) : Fails (scan >>= next) offset inside := by
  obtain ⟨fault, hrun⟩ := h
  refine ⟨fault, fun beyond touches => ?_⟩
  obtain ⟨last, hlast⟩ := hrun beyond touches
  exact ⟨last, by rw [run_bind, hlast]⟩

/-- A walk whose first step moves past some bytes and whose next one fails there. -/
theorem Fails.of_yields {scan : Scan α} {next : α → Scan β} {offset : Nat} {bs rest : Bytes} {a : α}
    (hscan : Yields scan bs a) (hnext : Fails (next a) (offset + bs.length) rest) :
    Fails (scan >>= next) offset (bs ++ rest) := by
  obtain ⟨fault, hrun⟩ := hnext
  refine ⟨fault, fun beyond touches => ?_⟩
  obtain ⟨touches', hfirst⟩ := hscan
    ⟨bs ++ rest ++ beyond, offset, offset + (bs ++ rest).length, touches⟩ (rest ++ beyond)
    (List.append_assoc ..) (by simp)
  obtain ⟨last, hlast⟩ := hrun beyond touches'
  refine ⟨last, ?_⟩
  rw [run_bind, hfirst]
  rw [Nat.add_assoc, ← List.length_append] at hlast
  exact hlast

/-- A walk that looks around before it fails. -/
theorem Fails.of_looks {scan : Scan α} {next : α → Scan β} {offset : Nat} {inside : Bytes} {a : α}
    (hscan : ∀ beyond touches,
      Looks scan ⟨inside ++ beyond, offset, offset + inside.length, touches⟩ (.ok a))
    (hnext : Fails (next a) offset inside) : Fails (scan >>= next) offset inside := by
  obtain ⟨fault, hrun⟩ := hnext
  refine ⟨fault, fun beyond touches => ?_⟩
  obtain ⟨touches', hlook⟩ := (hscan beyond touches).exists_run_bind next
  obtain ⟨last, hlast⟩ := hrun beyond touches'
  exact ⟨last, hlook.trans hlast⟩

theorem looks_remaining_inside (offset : Nat) (inside beyond : Bytes) (touches : List Touch) :
    Looks remaining ⟨inside ++ beyond, offset, offset + inside.length, touches⟩
      (.ok inside.length) := by
  have h := looks_remaining ⟨inside ++ beyond, offset, offset + inside.length, touches⟩
  rwa [Nat.add_sub_cancel_left] at h

/-- A count that does not fit is not believed. -/
theorem fails_ensure {count unit offset : Nat} {inside : Bytes} (excess : Nat → Fault)
    (h : inside.length < count * unit) : Fails (ensure count unit excess) offset inside := by
  refine Fails.of_looks (a := ()) (fun beyond touches => ⟨_, rfl⟩) ?_
  refine Fails.of_looks (looks_remaining_inside offset inside) ?_
  rw [if_pos h]
  exact fails_throw _ _ _

/-! ### Recognizing -/

/-- The walk reads the pieces of a grammar and nothing else, wherever there is so much room. The bytes
of a piece are given by `write`, and what is read from it by `read`. -/
structure Recognizes (scan : Scan α) (room : Nat) (write : σ → Bytes) (read : σ → α) : Prop where
  /-- A piece is read. -/
  yields : ∀ c, Yields scan (write c) (read c)
  /-- Where no piece stands the walk fails. -/
  fails : ∀ {offset inside}, room ≤ inside.length → (∀ c, ¬write c <+: inside) →
    Fails scan offset inside
  /-- One piece at most stands at a place. -/
  unique : ∀ {c d rest rest'}, write c ++ rest = write d ++ rest' → c = d

namespace Recognizes

variable {scan : Scan α} {room : Nat} {write : σ → Bytes} {read : σ → α}

/-- The pieces may be named differently. -/
theorem congr {write' : τ → Bytes} {read' : τ → α} (h : Recognizes scan room write read) (e : τ ≃ σ)
    (hwrite : ∀ t, write' t = write (e t)) (hread : ∀ t, read' t = read (e t)) :
    Recognizes scan room write' read' := by
  constructor
  case yields =>
    intro t
    rw [hwrite, hread]
    exact h.yields (e t)
  case fails =>
    intro offset inside hroom hnone
    refine h.fails hroom fun c hc => hnone (e.symm c) ?_
    rwa [hwrite, e.apply_symm_apply]
  case unique =>
    intro t u rest rest' heq
    rw [hwrite, hwrite] at heq
    exact e.injective (h.unique heq)

/-- Nothing is read without any bytes. -/
theorem pure (a : α) : Recognizes (Pure.pure a) 0 (fun _ : Unit => []) fun _ => a := by
  constructor
  case yields => exact fun _ => Yields.pure a
  case fails => exact fun _ hnone => absurd List.nil_prefix (hnone ())
  case unique => exact fun _ => rfl

/-- More room does no harm. -/
theorem mono {room' : Nat} (h : Recognizes scan room write read) (hroom : room ≤ room') :
    Recognizes scan room' write read :=
  ⟨h.yields, fun hroom' hnone => h.fails (Nat.le_trans hroom hroom') hnone, h.unique⟩

/-- **Walks one after another recognize pieces one after another.** The second grammar may depend on
the first piece, and the second walk has the room that the first one leaves. -/
theorem bind_sigma {next : α → Scan β} {room' : Nat} {τ : σ → Type} {write' : (c : σ) → τ c → Bytes}
    {read' : (c : σ) → τ c → β} (h : Recognizes scan room write read)
    (hnext : ∀ c, Recognizes (next (read c)) room' (write' c) (read' c))
    (hfixed : room' = 0 ∨ ∀ c, (write c).length = room) :
    Recognizes (scan >>= next) (room + room') (fun p : (c : σ) × τ c => write p.1 ++ write' p.1 p.2)
      fun p => read' p.1 p.2 := by
  constructor
  case yields => exact fun p => (h.yields p.1).bind ((hnext p.1).yields p.2)
  case fails =>
    intro offset inside hroom hnone
    -- If a first piece stands here it is read, and then no second one stands behind it.
    by_cases hfirst : ∃ c, write c <+: inside
    · obtain ⟨c, rest, rfl⟩ := hfirst
      refine Fails.of_yields (h.yields c) ((hnext c).fails ?_ fun t ht => hnone ⟨c, t⟩ ?_)
      · rw [List.length_append] at hroom
        rcases hfixed with hzero | hwidth
        · omega
        · have := hwidth c
          omega
      · exact (List.prefix_append_right_inj _).mpr ht
    · exact (h.fails (by omega) fun c hc => hfirst ⟨c, hc⟩).bind next
  case unique =>
    rintro ⟨c, t⟩ ⟨d, u⟩ rest rest' heq
    dsimp only at heq
    rw [List.append_assoc, List.append_assoc] at heq
    obtain rfl := h.unique heq
    obtain rfl := (hnext c).unique (List.append_cancel_left heq)
    rfl

theorem bind {next : α → Scan β} {room' : Nat} {write' : τ → Bytes} {read' : σ → τ → β}
    (h : Recognizes scan room write read)
    (hnext : ∀ c, Recognizes (next (read c)) room' write' (read' c))
    (hfixed : room' = 0 ∨ ∀ c, (write c).length = room) :
    Recognizes (scan >>= next) (room + room') (fun p : σ × τ => write p.1 ++ write' p.2)
      fun p => read' p.1 p.2 :=
  (h.bind_sigma hnext hfixed).congr (Equiv.sigmaEquivProd σ τ).symm (fun _ => rfl) fun _ => rfl

/-- The last step of a walk may work on the value. -/
theorem map (h : Recognizes scan room write read) (f : α → β) :
    Recognizes (scan >>= fun a => Pure.pure (f a)) room write fun c => f (read c) := by
  constructor
  case yields => exact fun c => (h.yields c).bind_pure f
  case fails => exact fun hroom hnone => (h.fails hroom hnone).bind _
  case unique => exact h.unique

/-- A walk may refuse some pieces after it has read them. -/
theorem guard {next : α → Scan β} {p : σ → Prop} {read' : {c // p c} → β}
    (h : Recognizes scan room write read)
    (hgood : ∀ c : {c // p c}, next (read c) = Pure.pure (read' c))
    (hbad : ∀ c, ¬p c → ∃ fault, next (read c) = throw fault) :
    Recognizes (scan >>= next) room (fun c : {c // p c} => write c) read' := by
  constructor
  case yields =>
    intro c
    refine (h.yields c).bind_nil ?_
    rw [hgood c]
    exact Yields.pure _
  case fails =>
    intro offset inside hroom hnone
    by_cases hfirst : ∃ c, write c <+: inside
    · obtain ⟨c, rest, rfl⟩ := hfirst
      have hrefused : ¬p c := fun hc => hnone ⟨c, hc⟩ (List.prefix_append _ _)
      obtain ⟨fault, hthrow⟩ := hbad c hrefused
      refine Fails.of_yields (h.yields c) ?_
      rw [hthrow]
      exact fails_throw _ _ _
    · exact (h.fails hroom fun c hc => hfirst ⟨c, hc⟩).bind next
  case unique => exact fun heq => Subtype.ext (h.unique heq)

/-- A walk may make sure that there is enough room before it reads. -/
theorem checked (h : Recognizes scan room write read) (short : Nat → Fault)
    (hroom : ∀ c, room ≤ (write c).length) :
    Recognizes (do
      let available ← remaining
      if available < room then throw (short available) else scan) 0 write read := by
  constructor
  case yields =>
    intro c
    have hlength := hroom c
    refine Yields.of_looks fun s rest _ hlimit => ⟨_, looks_remaining s, ?_⟩
    rw [if_neg (by omega)]
    exact h.yields c
  case fails =>
    intro offset inside _ hnone
    refine Fails.of_looks (looks_remaining_inside offset inside) ?_
    split
    · exact fails_throw _ _ _
    · exact h.fails (by omega) hnone
  case unique => exact h.unique

/-- A walk may make sure that so many elements fit before it reads them. -/
theorem ensured {count unit : Nat} (h : Recognizes scan (count * unit) write read)
    (excess : Nat → Fault) (hroom : ∀ c, count * unit ≤ (write c).length) :
    Recognizes (do ensure count unit excess; scan) 0 write read := by
  constructor
  case yields => exact fun c => (h.yields c).ensure (hroom c)
  case fails =>
    intro offset inside _ hnone
    by_cases hfits : count * unit ≤ inside.length
    · exact Fails.of_looks (fun beyond touches => looks_ensure excess (by simpa using hfits))
        (h.fails hfits hnone)
    · exact (fails_ensure excess (by omega)).bind _
  case unique => exact h.unique

/-- **Elements in a row**, of which there are so many. Each has the room that the ones before it
leave. -/
theorem repeated (h : Recognizes scan room write read)
    (hfixed : room = 0 ∨ ∀ c, (write c).length = room) (n : Nat) :
    Recognizes (Scan.repeated scan n) (n * room)
      (fun cs : {cs : List σ // cs.length = n} => cs.1.flatMap write) fun cs => cs.1.map read := by
  induction n with
  | zero =>
    rw [Nat.zero_mul]
    refine (pure []).congr ⟨fun _ => (), fun _ => ⟨[], rfl⟩, ?_, fun _ => rfl⟩ ?_ ?_
    all_goals
      rintro ⟨cs, hcs⟩
      obtain rfl := List.length_eq_zero_iff.mp hcs
      rfl
  | succ n ih =>
    have hroom : n * room = 0 ∨ ∀ c, (write c).length = room :=
      hfixed.imp_left fun hzero => by rw [hzero, Nat.mul_zero]
    have hrow : Recognizes (do
        let first ← scan
        let others ← Scan.repeated scan n
        return first :: others) (room + n * room) _ _ :=
      h.bind (fun c => ih.map (read c :: ·)) hroom
    rw [Nat.succ_mul, Nat.add_comm (n * room)]
    refine hrow.congr (headAndTail n) ?_ ?_
    all_goals
      rintro ⟨_ | ⟨c, cs⟩, hcs⟩
      · cases hcs
      · rfl

end Recognizes

end Scan

end MarketWire
