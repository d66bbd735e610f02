import MarketWire.Decoder.Basic
import MarketWire.Proofs.Frames
import MarketWire.Proofs.PreambleLength

/-!
# Where a decoder stands

Whether a view lies in the arena or in the store of aligned copies, and where in the arena the
unread bytes begin, has no influence on what a decoder decodes. What counts is the phase, the number
of bytes consumed, and the unread bytes: the standing of the decoder. A call is a function of it,
and the two ways of calling differ only in the form in which they hand over records.

Bytes that arrive in pieces are decoded like bytes that arrive at once. That is `call_write`: a call
between two writes gives its part of what one call after both writes gives, and leaves the rest to
the next call. It rests on verdicts being final, those on the preamble as well as those on a header.

## Main definitions

* `Standing` — what counts of the state of a decoder.
* `Yield` — what calls hand over: the metadata, records, reports and an outcome.
* `Standing.call` — one call.
* `Standing.whole` — the call of a decoder that was handed everything at once.

## Main results

* `Standing.call_write` — **a call in between changes nothing**.
* `Standing.call_call` — a call after a call has nothing more to give.
-/

namespace MarketWire

/-! ### What calls hand over -/

/-- A record that is handed over, with the send timestamp that belongs to it. -/
structure Delivery where
  /-- The record. -/
  record : Record
  /-- The time of sending, if the metadata announces one and the record has room for it. -/
  tsOut : Option UInt64
  deriving DecidableEq

/-- A record of a stream with the given metadata. -/
def Delivery.of (metadata : Metadata) (record : Record) : Delivery where
  record := record
  tsOut := if metadata.tsOut then record.tsOut.toOption else none

/-- What calls hand over. -/
@[ext]
structure Yield where
  /-- The metadata, if a call came upon it. -/
  preamble : Option Metadata := none
  /-- The records in the order of the stream. -/
  deliveries : List Delivery := []
  /-- The reports on records that are passed over. -/
  problems : List Fault := []
  /-- How the last call ended. -/
  outcome : Outcome := .ok ()

namespace Yield

/-- The records that are handed over. -/
def records (y : Yield) : List Record :=
  y.deliveries.map (·.record)

/-- What earlier and later calls hand over together. -/
def append (earlier later : Yield) : Yield where
  preamble := earlier.preamble.or later.preamble
  deliveries := earlier.deliveries ++ later.deliveries
  problems := earlier.problems ++ later.problems
  outcome := later.outcome

/-- A call that fails and hands over nothing. -/
def failure (fault : Fault) : Yield where
  outcome := .error fault

theorem records_append (earlier later : Yield) :
    (earlier.append later).records = earlier.records ++ later.records := by
  simp [records, append]

end Yield

/-! ### The metadata at the front -/

/-- The metadata at the front of a byte string with the number of bytes that it takes, once all of
them are there. -/
def Metadata.atFront (bs : Bytes) : Except Fault (Option (Metadata × Nat)) :=
  match peekLength bs with
  | .error fault => .error fault
  | .ok none => .ok none
  | .ok (some length) =>
    if bs.length < length then
      .ok none
    else
      match parse (bs.take length) with
      | .error fault => .error fault
      | .ok metadata => .ok (some (metadata, length))

/-- What has been found out about the metadata is not changed by bytes that arrive later. -/
theorem Metadata.atFront_append {bs : Bytes} {found : Except Fault (Option (Metadata × Nat))}
    (hfound : atFront bs = found) (h : found ≠ .ok none) (more : Bytes) :
    atFront (bs ++ more) = found := by
  subst hfound
  have hpeek : peekLength bs ≠ .ok none := fun hnone => h (by rw [atFront, hnone])
  have hsame : peekLength (bs ++ more) = peekLength bs := by
    rw [peekLength_eq] at hpeek
    rw [peekLength_eq, peekLength_eq, announcedLength_append hpeek]
  rw [atFront, atFront, hsame]
  cases hlength : peekLength bs with
  | error fault => rfl
  | ok length? =>
    cases length? with
    | none => rfl
    | some length =>
      have hle : ¬bs.length < length := fun hlt => h (by simp [atFront, hlength, hlt])
      have hmore : ¬(bs ++ more).length < length := by
        rw [List.length_append]
        omega
      dsimp only
      rw [if_neg hle, if_neg hmore, List.take_append_of_le_length (Nat.not_lt.mp hle)]

/-- The metadata takes no more bytes than there are. -/
theorem Metadata.length_le_of_atFront {bs : Bytes} {metadata : Metadata} {length : Nat}
    (h : atFront bs = .ok (some (metadata, length))) : length ≤ bs.length := by
  rw [atFront] at h
  split at h
  · cases h
  · cases h
  · split at h
    · cases h
    · split at h
      · cases h
      · cases h
        omega

/-! ### Standings and calls -/

theorem metadata?_after (metadata : Metadata) (outcome : Outcome) :
    (Phase.after metadata outcome).metadata? = some metadata := by
  cases outcome <;> rfl

/-- What counts of the state of a decoder. -/
structure Standing where
  /-- How far the decoder has come. -/
  phase : Phase
  /-- The number of bytes that are decoded or passed over. -/
  consumed : Nat
  /-- The bytes that are not decoded yet. -/
  unread : Bytes

namespace Standing

/-- The standing of a decoder that has not seen any bytes. -/
def fresh : Standing where
  phase := .awaitingMetadata
  consumed := 0
  unread := []

/-- Hands over further bytes. -/
def write (s : Standing) (bs : Bytes) : Standing :=
  { s with unread := s.unread ++ bs }

/-- Takes all frames off a byte string that lies at `offset` in a stream with the given metadata. -/
def stream (metadata : Metadata) (offset : Nat) (bs : Bytes) : Yield × Standing :=
  let cut := segment offset bs
  ({ deliveries := (knownRecords cut.frames).map (.of metadata)
     problems := skipped offset cut.frames
     outcome := cut.outcome },
    ⟨.after metadata cut.outcome, offset + cut.frames.flatten.length, cut.rest⟩)

@[simp] theorem records_stream (metadata : Metadata) (offset : Nat) (bs : Bytes) :
    (stream metadata offset bs).1.records = knownRecords (segment offset bs).frames := by
  simp [stream, Yield.records, Delivery.of, Function.comp_def]

/-- One call. -/
def call (s : Standing) : Yield × Standing :=
  match s.phase with
  | .failed _ fault => (.failure fault, s)
  | .streaming metadata => stream metadata s.consumed s.unread
  | .awaitingMetadata =>
    match Metadata.atFront s.unread with
    | .error fault => (.failure fault, s)
    | .ok none => ({}, s)
    | .ok (some (metadata, length)) =>
      let (yield, last) := stream metadata (s.consumed + length) (s.unread.drop length)
      ({ yield with preamble := some metadata }, last)

/-- What one call gives to a decoder that was handed all of a byte string at once. -/
def whole (bs : Bytes) : Yield × Standing :=
  (fresh.write bs).call

@[simp] theorem write_nil (s : Standing) : s.write [] = s := by
  simp [write]

/-- Without any bytes there is nothing to give. -/
theorem call_fresh : fresh.call = ({}, fresh) := by
  have hfront : Metadata.atFront [] = .ok none := by
    rw [Metadata.atFront, Metadata.peekLength_eq]
    rfl
  have hunread : fresh.unread = [] := rfl
  have hphase : fresh.phase = .awaitingMetadata := rfl
  rw [call, hphase, hunread]
  dsimp only
  rw [hfront]

theorem write_append (s : Standing) (bs more : Bytes) :
    s.write (bs ++ more) = (s.write bs).write more := by
  simp [write, List.append_assoc]

/-- Frames that are complete are taken off before further bytes arrive, or with them. -/
theorem stream_append (metadata : Metadata) (offset : Nat) (bs more : Bytes) :
    stream metadata offset (bs ++ more) =
      (((stream metadata offset bs).1.append ((stream metadata offset bs).2.write more).call.1),
        ((stream metadata offset bs).2.write more).call.2) := by
  cases houtcome : (segment offset bs).outcome with
  | error fault =>
    rw [stream, segment_append_of_error houtcome]
    simp [stream, call, write, Phase.after, houtcome, Yield.append, Yield.failure]
  | ok =>
    rw [stream, segment_append]
    simp [stream, call, write, Phase.after, houtcome, Yield.append, Segmentation.prepend,
      knownRecords_append, skipped_append, Nat.add_assoc]

/-- **A call in between changes nothing.** Together with the call after the next write it gives what
that call alone would have given, and the decoder stands where it would have stood. -/
theorem call_write (s : Standing) (bs : Bytes) :
    (s.write bs).call =
      (s.call.1.append (s.call.2.write bs).call.1, (s.call.2.write bs).call.2) := by
  obtain ⟨phase, consumed, unread⟩ := s
  cases phase with
  | failed metadata fault => simp [call, write, Yield.append, Yield.failure]
  | streaming metadata => exact stream_append metadata consumed unread bs
  | awaitingMetadata =>
    cases hfront : Metadata.atFront unread with
    | error fault =>
      have hmore := Metadata.atFront_append hfront nofun bs
      simp [call, write, hfront, hmore, Yield.append, Yield.failure]
    | ok front =>
      cases front with
      | none => simp [call, hfront, Yield.append]
      | some front =>
        obtain ⟨metadata, length⟩ := front
        have hmore := Metadata.atFront_append hfront nofun bs
        have hdrop : (unread ++ bs).drop length = unread.drop length ++ bs :=
          List.drop_append_of_le_length (Metadata.length_le_of_atFront hfront)
        have hstream := stream_append metadata (consumed + length) (unread.drop length) bs
        simp only [call, write, hfront, hmore, hdrop, hstream]
        rfl

/-- The metadata is come upon once. -/
theorem metadata_of_preamble_call {s : Standing} {metadata : Metadata}
    (h : s.call.1.preamble = some metadata) :
    s.phase = .awaitingMetadata ∧ s.call.2.phase.metadata? = some metadata := by
  obtain ⟨phase, consumed, unread⟩ := s
  cases phase with
  | failed _ _ => cases h
  | streaming _ => cases h
  | awaitingMetadata =>
    refine ⟨rfl, ?_⟩
    simp only [call] at h ⊢
    split at h
    · cases h
    · cases h
    · cases h
      exact metadata?_after _ _

/-- Metadata that is there stays. -/
theorem metadata?_call {s : Standing} {metadata : Metadata}
    (h : s.phase.metadata? = some metadata) : s.call.2.phase.metadata? = some metadata := by
  obtain ⟨phase, consumed, unread⟩ := s
  cases phase with
  | failed _ _ => exact h
  | streaming _ => exact (metadata?_after _ _).trans h
  | awaitingMetadata => cases h

/-- No record comes out before the metadata does. -/
theorem records_call_of_isNone {s : Standing} (h : s.call.2.phase.metadata? = none) :
    s.call.1.records = [] := by
  obtain ⟨phase, consumed, unread⟩ := s
  cases phase with
  | failed _ _ => rfl
  | streaming _ => exact absurd ((metadata?_after _ _).symm.trans h) nofun
  | awaitingMetadata =>
    simp only [call] at h ⊢
    split
    · rfl
    · rfl
    · rename_i hfront
      rw [hfront] at h
      exact absurd ((metadata?_after _ _).symm.trans h) nofun

/-- **A call after a call has nothing more to give.** -/
theorem call_call (s : Standing) :
    s.call.2.call = ({ outcome := s.call.1.outcome }, s.call.2) := by
  have h := s.call_write []
  rw [write_nil, write_nil] at h
  have hyield : s.call.1.append s.call.2.call.1 = s.call.1 := (congrArg Prod.fst h).symm
  have hlast : s.call.2.call.2 = s.call.2 := (congrArg Prod.snd h).symm
  refine Prod.ext (Yield.ext ?preamble ?deliveries ?problems ?outcome) hlast
  case preamble =>
    cases hnext : s.call.2.call.1.preamble with
    | none => rfl
    | some metadata =>
      obtain ⟨hphase, hmetadata⟩ := metadata_of_preamble_call hnext
      rw [hlast, hphase] at hmetadata
      cases hmetadata
  case deliveries => exact List.append_right_eq_self.mp (congrArg Yield.deliveries hyield)
  case problems => exact List.append_right_eq_self.mp (congrArg Yield.problems hyield)
  case outcome => exact (congrArg Yield.outcome hyield :)

/-- **A fault is final.** Bytes that are handed over after it are not looked at. -/
theorem call_write_of_error {s : Standing} {fault : Fault} (h : s.call.1.outcome = .error fault)
    (bs : Bytes) : (s.call.2.write bs).call = (.failure fault, s.call.2.write bs) := by
  obtain ⟨phase, consumed, unread⟩ := s
  cases phase with
  | failed _ _ =>
    cases h
    rfl
  | streaming metadata =>
    have houtcome : (segment consumed unread).outcome = .error fault := h
    simp [call, stream, write, Phase.after, houtcome]
  | awaitingMetadata =>
    simp only [call] at h ⊢
    split at h
    · rename_i hfront
      have hmore := Metadata.atFront_append hfront nofun bs
      cases h
      simp [write, hmore]
    · cases h
    · rename_i metadata length hfront
      have houtcome : (segment (consumed + length) (unread.drop length)).outcome = .error fault := h
      simp [stream, write, Phase.after, houtcome]

end Standing

end MarketWire
