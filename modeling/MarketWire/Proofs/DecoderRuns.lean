import MarketWire.Proofs.DecoderRefinement

/-!
# Runs of a decoder

Whoever feeds a decoder decides where the bytes are cut into pieces, how often the decoder is called
in between, and in which of the two ways. None of this can be told from what comes out: a run hands
over what a single write and a single call would have handed over, and leaves the decoder in the
same state. This holds of good streams and of bad ones, down to the wording of the reports.

The proof is one induction over the run. A write adds to what the standing has unread, and a call
gives its part of what the last one would have given.

## Main definitions

* `Command` — what may be done with a decoder.
* `Product` — a record that is handed over, owned or as a view.
* `Decoder.run` — a run, with its `Transcript`.
* `Product.Agrees` — when two records that are handed over are one record of the stream.

## Main results

* `Decoder.tells_run` — what a run hands over, told from the bytes alone.
* `Decoder.run_agrees_at_once` — **pieces and calls in between do not matter**.
-/

namespace MarketWire

/-! ### Runs -/

/-- A way of calling a decoder. -/
inductive CallKind
  /-- For owned records. -/
  | owned
  /-- For views. -/
  | views
  deriving DecidableEq, Repr

/-- What may be done with a decoder. -/
inductive Command
  /-- Hand over further bytes. -/
  | write (bs : Bytes)
  /-- Call it. -/
  | call (kind : CallKind)
  deriving DecidableEq, Repr

/-- The bytes that are handed over in a run. -/
def written : List Command → Bytes
  | [] => []
  | .write bs :: commands => bs ++ written commands
  | .call _ :: commands => written commands

/-- A record that is handed over. -/
inductive Product
  /-- An owned record. -/
  | owned (record : DecodedRecord)
  /-- A view. -/
  | view (view : View)

namespace Product

/-- The owned copy. -/
def copy : Product → Except Fault OwnedRecord
  | .owned decoded => .ok decoded.record
  | .view v => v.record.toOwned

/-- The send timestamp beside an owned record. -/
def tsOut? : Product → Option (Option UInt64)
  | .owned decoded => some decoded.tsOut
  | .view _ => none

/-- The bytes that a view shows, as many as its header announces. -/
def bytes? : Product → Option Bytes
  | .owned _ => none
  | .view v => some v.record.bytes

/-- Two products are the same record as far as both show it. -/
structure Agrees (p q : Product) : Prop where
  /-- Both have an owned copy, and it is the same. -/
  copy : ∃ owned, p.copy = .ok owned ∧ q.copy = .ok owned
  /-- Owned records have the same send timestamp. -/
  tsOut : ∀ t ∈ p.tsOut?, ∀ u ∈ q.tsOut?, t = u
  /-- Views show the same bytes. -/
  bytes : ∀ bs ∈ p.bytes?, ∀ cs ∈ q.bytes?, bs = cs

end Product

/-- The record of an item that is one. -/
def Item.product? : Item → Option Product
  | .metadata _ => none
  | .record decoded => some (.owned decoded)

/-- What a run hands over. -/
structure Transcript where
  /-- The records in the order of the stream. -/
  products : List Product := []
  /-- The reports on records that are passed over. -/
  problems : List Fault := []
  /-- How the last call ended, if there was one. -/
  outcome : Option Outcome := none

/-- What earlier and later parts of a run hand over together. -/
def Transcript.append (earlier later : Transcript) : Transcript where
  products := earlier.products ++ later.products
  problems := earlier.problems ++ later.problems
  outcome := later.outcome.or earlier.outcome

namespace Decoder

/-- What one call hands over. -/
def call (d : Decoder) : CallKind → Transcript × Decoder
  | .owned =>
    let (batch, last) := d.decode
    ({ products := batch.items.filterMap Item.product?
       problems := batch.problems
       outcome := some batch.outcome }, last)
  | .views =>
    let (batch, last) := d.decodeViews
    ({ products := batch.items.map .view
       problems := batch.problems
       outcome := some batch.outcome }, last)

/-- A run. -/
def run (d : Decoder) : List Command → Transcript × Decoder
  | [] => ({}, d)
  | .write bs :: commands => (d.write bs).run commands
  | .call kind :: commands =>
    let (first, d) := d.call kind
    let (later, last) := d.run commands
    (first.append later, last)

end Decoder

/-! ### What a run tells -/

namespace Delivery

/-- The delivered record in one of its forms. -/
inductive IsShown (d : Delivery) : Product → Prop
  /-- As an owned copy. -/
  | owned {decoded : DecodedRecord} (h : d.IsOwned decoded) : d.IsShown (.owned decoded)
  /-- As a view. -/
  | view {view : View} (h : d.IsViewed view) : d.IsShown (.view view)

variable {d : Delivery} {p q : Product}

/-- Every form has the copy of the record. -/
theorem IsShown.exists_copy_eq (h : d.IsShown p) :
    ∃ owned, d.record.toOwned = .ok owned ∧ p.copy = .ok owned := by
  cases h with
  | owned h => exact ⟨_, h.record, rfl⟩
  | view h =>
    obtain ⟨owned, howned⟩ := h.toOwned
    refine ⟨owned, howned, ?_⟩
    rw [← howned, ← h.record]
    rfl

theorem IsShown.tsOut_eq (h : d.IsShown p) : ∀ t ∈ p.tsOut?, t = d.tsOut := by
  intro t ht
  cases h with
  | owned h =>
    cases ht
    exact h.tsOut
  | view _ => cases ht

theorem IsShown.bytes_eq (h : d.IsShown p) : ∀ bs ∈ p.bytes?, bs = d.record.bytes := by
  intro bs hbs
  cases h with
  | owned _ => cases hbs
  | view h =>
    cases hbs
    rw [h.record]

/-- Two forms of a record agree. -/
theorem IsShown.agrees (hp : d.IsShown p) (hq : d.IsShown q) : p.Agrees q := by
  obtain ⟨owned, howned, hcopy⟩ := hp.exists_copy_eq
  obtain ⟨owned', howned', hcopy'⟩ := hq.exists_copy_eq
  rw [howned] at howned'
  cases howned'
  constructor
  case copy => exact ⟨owned, hcopy, hcopy'⟩
  case tsOut =>
    intro t ht u hu
    rw [hp.tsOut_eq t ht, hq.tsOut_eq u hu]
  case bytes =>
    intro bs hbs cs hcs
    rw [hp.bytes_eq bs hbs, hq.bytes_eq cs hcs]

end Delivery

/-- Two forms of records in a row agree. -/
theorem agrees_of_isShown {deliveries : List Delivery} {products others : List Product}
    (h : List.Forall₂ Delivery.IsShown deliveries products)
    (h' : List.Forall₂ Delivery.IsShown deliveries others) :
    List.Forall₂ Product.Agrees products others := by
  induction h generalizing others with
  | nil =>
    cases h'
    exact .nil
  | cons hfirst _ ih =>
    cases h' with
    | cons hother hothers => exact .cons (hfirst.agrees hother) (ih hothers)

namespace Decoder

/-- A run hands over what a call of a standing gives, and ends where that call ends. -/
structure Tells (given : Yield × Standing) (r : Transcript × Decoder) : Prop where
  /-- The records are those of the stream. -/
  products : List.Forall₂ Delivery.IsShown given.1.deliveries r.1.products
  /-- The reports are the same. -/
  problems : r.1.problems = given.1.problems
  /-- The last call ended in the same way. -/
  outcome : r.1.outcome = some given.1.outcome
  /-- The decoder stands where the call ends. -/
  standing : r.2.standing = given.2

theorem WellFormed.call {d : Decoder} (h : d.WellFormed) (kind : CallKind) :
    (d.call kind).2.WellFormed := by
  cases kind with
  | owned => exact h.decode
  | views => exact h.decodeViews

/-- The records among what a call for owned records hands over. -/
theorem products_call_owned (d : Decoder) :
    (d.call .owned).1.products = (d.pass own).1.batch.items.map .owned := by
  simp [call, decode, List.filterMap_append, List.filterMap_map, Function.comp_def, Item.product?]

/-- A call hands over what the standing gives. -/
theorem tells_call {d : Decoder} (h : d.WellFormed) (kind : CallKind) :
    Tells d.standing.call (d.call kind) := by
  cases kind with
  | owned =>
    have hpass := follows_own h
    refine ⟨?_, hpass.problems, congrArg some hpass.outcome, standing_decode h⟩
    rw [products_call_owned]
    exact List.forall₂_map_right_iff.mpr (hpass.items.imp fun _ _ => .owned)
  | views =>
    have hpass := follows_view h
    refine ⟨?_, hpass.problems, congrArg some hpass.outcome, standing_decodeViews h⟩
    exact List.forall₂_map_right_iff.mpr (hpass.items.imp fun _ _ => .view)

/-- What a run that ends with a call hands over, told from the bytes alone. -/
theorem tells_run {d : Decoder} (h : d.WellFormed) (commands : List Command) (last : CallKind) :
    Tells (d.standing.write (written commands)).call (d.run (commands ++ [.call last])) := by
  induction commands generalizing d with
  | nil =>
    obtain ⟨hproducts, hproblems, houtcome, hstanding⟩ := tells_call h last
    rw [written, Standing.write_nil]
    constructor <;> simp [run, Transcript.append, *]
  | cons command commands ih =>
    cases command with
    | write bs =>
      rw [written, Standing.write_append, ← standing_write h]
      exact ih (h.write bs)
    | call kind =>
      obtain ⟨hproducts, hproblems, houtcome, hstanding⟩ := tells_call h kind
      have hlater := ih (h.call kind)
      rw [hstanding] at hlater
      rw [written, Standing.call_write]
      constructor
      case products => exact List.rel_append hproducts hlater.products
      case problems => exact congr (congrArg _ hproblems) hlater.problems
      case outcome => exact congrArg (Option.or · _) hlater.outcome
      case standing => exact hlater.standing

/-- **Pieces and calls in between do not matter.** However the bytes are cut into pieces, and whatever
calls are made in between, a run that ends with a call hands over the records and reports of a
single write and a single call, ends as that call does, and leaves the decoder in the same state. -/
theorem run_agrees_at_once (commands : List Command) (last whole : CallKind) :
    let inPieces := fresh.run (commands ++ [.call last])
    let atOnce := fresh.run [.write (written commands), .call whole]
    List.Forall₂ Product.Agrees inPieces.1.products atOnce.1.products ∧
      inPieces.1.problems = atOnce.1.problems ∧
      inPieces.1.outcome = atOnce.1.outcome ∧
      inPieces.2.phase = atOnce.2.phase ∧
      inPieces.2.metadata? = atOnce.2.metadata? ∧
      inPieces.2.consumed = atOnce.2.consumed ∧
      inPieces.2.unread = atOnce.2.unread := by
  intro inPieces atOnce
  have hpieces : Tells _ inPieces := tells_run .fresh commands last
  have honce : Tells _ atOnce := tells_run .fresh [.write (written commands)] whole
  rw [written, written, List.append_nil] at honce
  have hstanding := hpieces.standing.trans honce.standing.symm
  have hphase : inPieces.2.phase = atOnce.2.phase := congrArg Standing.phase hstanding
  exact ⟨agrees_of_isShown hpieces.products honce.products,
    hpieces.problems.trans honce.problems.symm, hpieces.outcome.trans honce.outcome.symm,
    hphase, congrArg Phase.metadata? hphase, congrArg Standing.consumed hstanding,
    congrArg Standing.unread hstanding⟩

end Decoder

end MarketWire
