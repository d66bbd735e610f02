import Mathlib.Logic.Relation
import MarketWire.Proofs.DecoderRuns

/-!
# Phases of a decoder

A decoder moves in one direction: it waits for the metadata, then it decodes records, and after a
record that cannot be decoded it gives nothing any more. However it is fed and called, the bytes that
it has consumed and those that it still holds are all that was written, and metadata that is there
stays as it is.

A fault is final, and for two reasons. That of a record is stored in the phase. That of the metadata
is stored nowhere: the decoder looks at the same bytes again and comes to the same verdict, since
verdicts on the front of a stream are not changed by bytes that arrive later. `Standing.Stuck` is
what both have in common.

## Main definitions

* `Phase.Move` — the moves from one phase to the next.
* `Standing.run` — where a standing gets by writes and calls.
* `Standing.Stuck` — a standing that gives nothing but one fault, whatever is written.
* `Standing.BlamesHeader` — a decoder that has failed still has the header that it failed at.
* `Decoder.Repeats` — a call that gives nothing but a fault and changes nothing.

## Main results

* `Standing.moves_run`, `Standing.total_run` — what a run does to the phase and to the counts.
* `Standing.Stuck.run_eq`, `Standing.BlamesHeader.run` — what a run does behind a fault.
* `Decoder.run_moves_forward` — **what is true of every run**.
-/

namespace MarketWire

/-- The moves from one phase to the next. -/
inductive Phase.Move : Phase → Phase → Prop
  /-- The metadata is decoded. -/
  | decoded (metadata : Metadata) : Move .awaitingMetadata (.streaming metadata)
  /-- A record cannot be decoded. -/
  | failed (metadata : Metadata) (fault : Fault) :
    Move (.streaming metadata) (.failed metadata fault)

namespace Phase

/-- The metadata is there from the first move on. -/
theorem isSome_metadata?_iff (phase : Phase) :
    phase.metadata?.isSome ↔ phase ≠ .awaitingMetadata := by
  cases phase <;> simp [metadata?]

/-- A pass over the records makes no move, or the last one. -/
theorem moves_after (metadata : Metadata) (outcome : Outcome) :
    Relation.ReflTransGen Move (.streaming metadata) (.after metadata outcome) := by
  cases outcome with
  | ok => exact .refl
  | error fault => exact .single (.failed metadata fault)

theorem after_ne_awaitingMetadata (metadata : Metadata) (outcome : Outcome) :
    after metadata outcome ≠ .awaitingMetadata := by
  cases outcome <;> nofun

/-- Metadata that is there stays as it is. -/
theorem metadata?_of_moves {phase later : Phase} (h : Relation.ReflTransGen Move phase later)
    {metadata : Metadata} (hmetadata : phase.metadata? = some metadata) :
    later.metadata? = some metadata := by
  induction h with
  | refl => exact hmetadata
  | tail _ hmove ih =>
    cases hmove with
    | decoded => cases ih
    | failed => exact ih

end Phase

/-! ### One call -/

namespace Standing

/-- A call makes moves forward only. -/
theorem moves_call (s : Standing) : Relation.ReflTransGen Phase.Move s.phase s.call.2.phase := by
  obtain ⟨phase, consumed, unread⟩ := s
  cases phase with
  | failed _ _ => exact .refl
  | streaming metadata => exact Phase.moves_after metadata _
  | awaitingMetadata =>
    rw [call]
    dsimp only
    split
    · exact .refl
    · exact .refl
    · rename_i metadata length _
      exact .head (.decoded metadata) (Phase.moves_after metadata _)

/-- The number of bytes that were written. -/
def total (s : Standing) : Nat :=
  s.consumed + s.unread.length

theorem total_write (s : Standing) (bs : Bytes) : (s.write bs).total = s.total + bs.length := by
  simp only [total, write, List.length_append]
  omega

/-- Frames that are taken off a byte string are counted as consumed. -/
theorem total_stream (metadata : Metadata) (offset : Nat) (bs : Bytes) :
    (stream metadata offset bs).2.total = offset + bs.length := by
  have hlength := congrArg List.length (flatten_segment offset bs)
  rw [List.length_append] at hlength
  simp only [total, stream]
  omega

/-- A call neither loses nor makes up bytes. -/
theorem total_call (s : Standing) : s.call.2.total = s.total := by
  obtain ⟨phase, consumed, unread⟩ := s
  cases phase with
  | failed _ _ => rfl
  | streaming metadata => exact total_stream metadata consumed unread
  | awaitingMetadata =>
    rw [call]
    dsimp only
    split
    · rfl
    · rfl
    · rename_i metadata length hfront
      have hlength := Metadata.length_le_of_atFront hfront
      have hstream := total_stream metadata (consumed + length) (unread.drop length)
      rw [List.length_drop] at hstream
      simp only [total] at hstream ⊢
      omega

/-- Whatever is written, a call gives nothing but the fault and changes nothing. Behind a call that fails
this is what `call_write_of_error` says. -/
def Stuck (fault : Fault) (s : Standing) : Prop :=
  ∀ bs, (s.write bs).call = (.failure fault, s.write bs)

theorem Stuck.call_eq {s : Standing} {fault : Fault} (h : Stuck fault s) :
    s.call = (.failure fault, s) := by
  have hnow := h []
  rwa [write_nil] at hnow

/-- What is stuck has failed at a record, or still waits for the metadata. -/
theorem Stuck.phase_cases {s : Standing} {fault : Fault} (h : Stuck fault s) :
    s.phase = .awaitingMetadata ∨ ∃ metadata, s.phase = .failed metadata fault := by
  have hcall := h.call_eq
  obtain ⟨phase, consumed, unread⟩ := s
  cases phase with
  | awaitingMetadata => exact .inl rfl
  | failed metadata other =>
    cases hcall
    exact .inr ⟨metadata, rfl⟩
  | streaming metadata =>
    -- A pass over the records that fails would have moved on.
    have houtcome : (segment consumed unread).outcome = .error fault :=
      congrArg (·.1.outcome) hcall
    have hphase : Phase.after metadata (segment consumed unread).outcome = .streaming metadata :=
      congrArg (·.2.phase) hcall
    rw [houtcome] at hphase
    cases hphase

theorem Stuck.write {s : Standing} {fault : Fault} (h : Stuck fault s) (bs : Bytes) :
    Stuck fault (s.write bs) := by
  intro more
  rw [← write_append]
  exact h (bs ++ more)

/-- A decoder that has failed still has the header that it failed at, and the fault is what that
header is blamed for. -/
def BlamesHeader (s : Standing) : Prop :=
  ∀ metadata fault, s.phase = .failed metadata fault →
    (Front.ofBytes s.consumed s.unread).outcome = .error fault

theorem blamesHeader_fresh : fresh.BlamesHeader :=
  fun _ _ hphase => nomatch hphase

theorem BlamesHeader.write {s : Standing} (h : s.BlamesHeader) (bs : Bytes) :
    (s.write bs).BlamesHeader :=
  fun metadata fault hphase =>
    (Front.outcome_ofBytes_append_of_error (h metadata fault hphase) bs).2

theorem blamesHeader_stream (metadata : Metadata) (offset : Nat) (bs : Bytes) :
    (stream metadata offset bs).2.BlamesHeader := by
  intro metadata' fault hphase
  have hfront := (front_segment_rest offset bs).2
  have hafter : Phase.after metadata (segment offset bs).outcome = .failed metadata' fault := hphase
  refine hfront.trans ?_
  cases houtcome : (segment offset bs).outcome with
  | ok =>
    rw [houtcome] at hafter
    cases hafter
  | error other =>
    rw [houtcome] at hafter
    cases hafter
    rfl

theorem BlamesHeader.call {s : Standing} (h : s.BlamesHeader) : s.call.2.BlamesHeader := by
  obtain ⟨phase, consumed, unread⟩ := s
  cases phase with
  | failed _ _ => exact h
  | streaming metadata => exact blamesHeader_stream metadata consumed unread
  | awaitingMetadata =>
    rw [Standing.call]
    dsimp only
    split
    · exact h
    · exact h
    · exact blamesHeader_stream _ _ _

/-- A call that fails and leaves a decoder waiting has found bad metadata. -/
theorem atFront_of_error {s : Standing} {fault : Fault} (h : s.call.1.outcome = .error fault)
    (hphase : s.call.2.phase = .awaitingMetadata) :
    s.phase = .awaitingMetadata ∧ Metadata.atFront s.unread = .error fault := by
  obtain ⟨phase, consumed, unread⟩ := s
  cases phase with
  | failed _ _ => cases hphase
  | streaming metadata => exact absurd hphase (Phase.after_ne_awaitingMetadata metadata _)
  | awaitingMetadata =>
    simp only [call] at h hphase
    split at h
    · rename_i hfront
      cases h
      exact ⟨rfl, hfront⟩
    · cases h
    · rename_i hfront
      rw [hfront] at hphase
      exact absurd hphase (Phase.after_ne_awaitingMetadata _ _)

/-! ### Runs of a standing -/

/-- Where a standing gets by writes and calls. -/
def run (s : Standing) : List Command → Standing
  | [] => s
  | .write bs :: commands => (s.write bs).run commands
  | .call _ :: commands => s.call.2.run commands

/-- What writes and calls keep is kept by a run. -/
theorem run_keeps {P : Standing → Prop} (hwrite : ∀ s bs, P s → P (s.write bs))
    (hcall : ∀ s, P s → P s.call.2) {s : Standing} (h : P s) (commands : List Command) :
    P (s.run commands) := by
  induction commands generalizing s with
  | nil => exact h
  | cons command commands ih =>
    cases command with
    | write bs => exact ih (hwrite s bs h)
    | call kind => exact ih (hcall s h)

/-- A run makes moves forward only. -/
theorem moves_run (s : Standing) (commands : List Command) :
    Relation.ReflTransGen Phase.Move s.phase (s.run commands).phase := by
  have hwrite : ∀ (t : Standing) (bs : Bytes), Relation.ReflTransGen Phase.Move s.phase t.phase →
      Relation.ReflTransGen Phase.Move s.phase (t.write bs).phase := fun _ _ hmoves => hmoves
  exact run_keeps hwrite (fun t hmoves => hmoves.trans t.moves_call) .refl commands

/-- A run neither loses nor makes up bytes. -/
theorem total_run (s : Standing) (commands : List Command) :
    (s.run commands).total = s.total + (written commands).length := by
  induction commands generalizing s with
  | nil => rfl
  | cons command commands ih =>
    cases command with
    | write bs => rw [run, written, ih, total_write, List.length_append, Nat.add_assoc]
    | call kind => rw [run, written, ih, total_call]

/-- A standing that is stuck only piles up what is written. -/
theorem Stuck.run_eq {s : Standing} {fault : Fault} (h : Stuck fault s) (commands : List Command) :
    s.run commands = s.write (written commands) := by
  induction commands generalizing s with
  | nil => exact (write_nil s).symm
  | cons command commands ih =>
    cases command with
    | write bs => rw [Standing.run, written, ih (h.write bs), write_append]
    | call kind => rw [Standing.run, written, h.call_eq, ih h]

theorem BlamesHeader.run {s : Standing} (h : s.BlamesHeader) (commands : List Command) :
    (s.run commands).BlamesHeader :=
  run_keeps (fun _ bs hblames => hblames.write bs) (fun _ hblames => hblames.call) h commands

end Standing

/-! ### Runs of a decoder -/

namespace Decoder

theorem WellFormed.run {d : Decoder} (h : d.WellFormed) (commands : List Command) :
    (d.run commands).2.WellFormed := by
  induction commands generalizing d with
  | nil => exact h
  | cons command commands ih =>
    cases command with
    | write bs => exact ih (h.write bs)
    | call kind => exact ih (h.call kind)

/-- A run of a decoder takes its standing along. -/
theorem standing_run {d : Decoder} (h : d.WellFormed) (commands : List Command) :
    (d.run commands).2.standing = d.standing.run commands := by
  induction commands generalizing d with
  | nil => rfl
  | cons command commands ih =>
    cases command with
    | write bs =>
      rw [Standing.run, ← standing_write h]
      exact ih (h.write bs)
    | call kind =>
      rw [Standing.run, ← (tells_call h kind).standing]
      exact ih (h.call kind)

/-- A call that gives nothing but a fault and changes nothing. -/
structure Repeats {α : Type} (fault : Fault) (d : Decoder) (answer : Batch α × Decoder) : Prop where
  /-- Nothing is handed over. -/
  items : answer.1.items = []
  /-- Nothing is reported. -/
  problems : answer.1.problems = []
  /-- The call fails with the fault. -/
  outcome : answer.1.outcome = .error fault
  /-- The phase is the same, and with it the metadata. -/
  phase : answer.2.phase = d.phase
  /-- Nothing is consumed. -/
  consumed : answer.2.consumed = d.consumed
  /-- What was not decoded is still there. -/
  unread : answer.2.unread = d.unread

/-- A stuck decoder repeats its fault, whichever way it is called. -/
theorem repeats_of_stuck {d : Decoder} (h : d.WellFormed) {fault : Fault}
    (hstuck : d.standing.Stuck fault) : Repeats fault d d.decode ∧ Repeats fault d d.decodeViews := by
  have hcall := hstuck.call_eq
  have hown := follows_own h
  have hview := follows_view h
  have hdecode := standing_decode h
  have hviews := standing_decodeViews h
  rw [hcall] at hown hview hdecode hviews
  constructor
  · constructor
    case items =>
      have hrecords : (d.pass own).1.batch.items = [] := List.forall₂_nil_left_iff.mp hown.items
      have hmetadata : (d.pass own).1.preamble = none := hown.preamble
      simp [decode, hrecords, hmetadata]
    case problems => exact hown.problems
    case outcome => exact hown.outcome
    case phase => exact congrArg Standing.phase hdecode
    case consumed => exact congrArg Standing.consumed hdecode
    case unread => exact congrArg Standing.unread hdecode
  · constructor
    case items => exact List.forall₂_nil_left_iff.mp hview.items
    case problems => exact hview.problems
    case outcome => exact hview.outcome
    case phase => exact congrArg Standing.phase hviews
    case consumed => exact congrArg Standing.consumed hviews
    case unread => exact congrArg Standing.unread hviews

/-- **What is true of every run.** What a decoder has consumed and what it still holds are together
as much as was written. The metadata is there in every phase but the first, and stays as it is once
it is there. The phase only moves forward. And after a call that fails, whatever else is done with the
decoder, every call fails with the same fault, hands over and reports nothing, and leaves phase,
metadata and counts as they were when the first one had failed. -/
theorem run_moves_forward (before after : List Command) :
    let d := (fresh.run before).2
    d.consumed + d.unreadSize = (written before).length ∧
      (d.metadata?.isSome ↔ d.phase ≠ .awaitingMetadata) ∧
      (∀ metadata, d.metadata? = some metadata →
        (d.run after).2.metadata? = some metadata) ∧
      Relation.ReflTransGen Phase.Move d.phase (d.run after).2.phase ∧
      ∀ kind fault, (d.call kind).1.outcome = some (.error fault) →
        let failed := (d.call kind).2
        let later := (failed.run after).2
        (failed.phase = .awaitingMetadata ∨ ∃ metadata, failed.phase = .failed metadata fault) ∧
          later.phase = failed.phase ∧ later.metadata? = failed.metadata? ∧
          later.consumed = failed.consumed ∧
          Repeats fault later later.decode ∧ Repeats fault later later.decodeViews := by
  intro d
  have hwell : d.WellFormed := WellFormed.fresh.run before
  have hmoves : Relation.ReflTransGen Phase.Move d.phase (d.run after).2.phase := by
    have hstanding := d.standing.moves_run after
    rwa [← standing_run hwell] at hstanding
  refine ⟨?total, Phase.isSome_metadata?_iff d.phase, fun _ => Phase.metadata?_of_moves hmoves,
    hmoves, ?fault⟩
  case total =>
    have htotal := Standing.fresh.total_run before
    have hunread : d.standing.unread.length = d.unreadSize := Arena.length_readable hwell
    rw [← standing_fresh, ← standing_run .fresh, Standing.total, hunread, standing_fresh] at htotal
    exact htotal.trans (Nat.zero_add _)
  case fault =>
    intro kind fault hfault failed later
    have htells := tells_call hwell kind
    have houtcome : d.standing.call.1.outcome = .error fault :=
      Option.some.inj (htells.outcome.symm.trans hfault)
    have hfailed : failed.WellFormed := hwell.call kind
    have hstanding : failed.standing = d.standing.call.2 := htells.standing
    have hstuck : failed.standing.Stuck fault := by
      rw [hstanding]
      exact Standing.call_write_of_error houtcome
    have hlater : later.standing = failed.standing.write (written after) := by
      rw [standing_run hfailed, hstuck.run_eq]
    have hphase : later.phase = failed.phase := congrArg Standing.phase hlater
    have hrepeats := repeats_of_stuck (hfailed.run after) (by rw [hlater]; exact hstuck.write _)
    exact ⟨hstuck.phase_cases, hphase, congrArg Phase.metadata? hphase,
      congrArg Standing.consumed hlater, hrepeats.1, hrepeats.2⟩

end Decoder

end MarketWire
