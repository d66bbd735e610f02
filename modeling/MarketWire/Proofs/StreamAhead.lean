import MarketWire.Proofs.DecoderRefinement
import MarketWire.RecordStream.Decoding
import MarketWire.Source.Memory

/-!
# What lies ahead of a stream

A stream reads the bytes of a block of memory piece by piece, and a decoder could be handed all of
them at once. The invariant that relates the two looks ahead: at every moment what was given out,
what is queued, and what one call would give if the decoder were handed the rest of the source, make
up what one call gives on all of the bytes. Reading a piece brings nothing new, and decoding moves
something from ahead into the queue, so where the pieces end has no influence.

Between calls a stream is in one of three situations: it waits and the decoder has nothing more to
give, it holds back a fault until the queue is empty, or it has finished.

## Main definitions

* `finalOutcome` — how a stream ends, told from the decoder.
* `DecodingStream.Tracks` — **the invariant**.
* `DecodingStream.Waiting`, `Held`, `Finished` — the situations between calls.

## Main results

* `DecodingStream.Tracks.readChunk`, `Tracks.fillQueue` — reading and decoding keep the invariant.
* `DecodingStream.finished_finish`, `finished_of_stuck` — a stream ends as the decoder does.
-/

namespace MarketWire

/-- How a stream over the bytes ends: as a decoder that is handed all of them, or early when the
metadata was never complete or bytes are left over. -/
def finalOutcome (bs : Bytes) : Outcome :=
  let (batch, d) := (Decoder.fresh.write bs).decodeViews
  match batch.outcome with
  | .error fault => .error fault
  | .ok () =>
    if d.metadata?.isNone then
      .error (.endedInPreamble bs.length)
    else if 0 < d.unreadSize then
      .error (.endedInRecord d.unreadSize d.consumed)
    else
      .ok ()

theorem finalOutcome_eq (bs : Bytes) :
    finalOutcome bs =
      match (Standing.whole bs).1.outcome with
      | .error fault => .error fault
      | .ok () =>
        if (Standing.whole bs).2.phase.metadata?.isNone then
          .error (.endedInPreamble bs.length)
        else if 0 < (Standing.whole bs).2.unread.length then
          .error (.endedInRecord (Standing.whole bs).2.unread.length (Standing.whole bs).2.consumed)
        else
          .ok () := by
  have hwell := Decoder.WellFormed.fresh.write bs
  rw [finalOutcome, ← Decoder.call_standing_write_fresh]
  generalize Decoder.fresh.write bs = d at hwell ⊢
  have houtcome : d.decodeViews.1.outcome = d.standing.call.1.outcome :=
    (Decoder.follows_view hwell).outcome
  rw [← houtcome, ← Decoder.standing_decodeViews hwell]
  have hlength : d.decodeViews.2.unread.length = d.decodeViews.2.unreadSize :=
    Arena.length_readable hwell.decodeViews
  simp only [Decoder.standing, hlength]
  rfl

/-- A stream without metadata does not end well. -/
theorem finalOutcome_ne_ok {bs : Bytes} (h : (Standing.whole bs).2.phase.metadata? = none) :
    finalOutcome bs ≠ .ok () := by
  rw [finalOutcome_eq, h]
  split <;> simp

namespace DecodingStream

/-! ### Looking ahead -/

variable {bs : Bytes} {given : List Record} {s : DecodingStream MemorySource}

/-- What one call would give if the decoder were handed the rest of the source. -/
def ahead (s : DecodingStream MemorySource) : Yield × Standing :=
  (s.decoder.standing.write (s.source.bytes.toList.drop s.offset)).call

theorem ahead_eq (h : s.source = .ofBytes bs) :
    s.ahead = (s.decoder.standing.write (bs.drop s.offset)).call := by
  rw [ahead, h]
  rfl

/-- What was given out, what is queued and what lies ahead make up what one call gives on all of
the bytes. -/
structure Tracks (bs : Bytes) (given : List Record) (s : DecodingStream MemorySource) : Prop where
  /-- The source holds the bytes. -/
  source : s.source = .ofBytes bs
  /-- Pieces are not empty. -/
  chunkSize_pos : 0 < s.chunkSize
  /-- No more was read than is there. -/
  offset_le : s.offset ≤ bs.length
  /-- The decoder is in order. -/
  wellFormed : s.decoder.WellFormed
  /-- No record is lost or given out twice. -/
  records : given ++ s.queue ++ s.ahead.1.records = (Standing.whole bs).1.records
  /-- No report is lost or made twice. -/
  problems : s.problems ++ s.ahead.1.problems = (Standing.whole bs).1.problems
  /-- The decoder will end as it does on all of the bytes. -/
  outcome : s.ahead.1.outcome = (Standing.whole bs).1.outcome
  /-- The decoder will stand where it does on all of the bytes. -/
  standing : s.ahead.2 = (Standing.whole bs).2
  /-- Records come behind the metadata. -/
  queue : s.metadata? = none → s.queue = []

/-- Nothing has failed, and the decoder has nothing more to give before further bytes arrive. -/
structure Waiting (s : DecodingStream MemorySource) : Prop where
  /-- No fault has ended the stream. -/
  fault_eq : s.fault = none
  /-- No fault is held back. -/
  pending_eq : s.pending = none
  /-- The source is not known to have ended. -/
  exhausted_eq : s.exhausted = false
  /-- Another call gives nothing. -/
  quiet : s.decoder.standing.call = ({}, s.decoder.standing)

/-- The decoder has failed for good: no further bytes make it give anything. -/
def Stuck (fault : Fault) (s : DecodingStream MemorySource) : Prop :=
  ∀ more, (s.decoder.standing.write more).call = (.failure fault, s.decoder.standing.write more)

/-- The decoder has failed, and its fault is held back. -/
structure Held (fault : Fault) (s : DecodingStream MemorySource) : Prop where
  /-- No fault has ended the stream. -/
  fault_eq : s.fault = none
  /-- The fault is held back. -/
  pending_eq : s.pending = some fault
  /-- The source is not known to have ended. -/
  exhausted_eq : s.exhausted = false
  /-- The fault is that of the decoder. -/
  stuck : Stuck fault s

/-- Nothing is left to be given out, and the stream has ended as it must. -/
structure Finished (bs : Bytes) (s : DecodingStream MemorySource) : Prop where
  /-- The stream is marked as ended. -/
  ended : s.ended = true
  /-- No record is queued. -/
  queue : s.queue = []
  /-- The stream has ended as it must. -/
  outcome : s.outcome = finalOutcome bs
  /-- No record lies ahead. -/
  records : s.ahead.1.records = []
  /-- No report lies ahead. -/
  problems : s.ahead.1.problems = []
  /-- The metadata is what the decoder comes upon. -/
  metadata : s.metadata? = (Standing.whole bs).2.phase.metadata?

/-- Metadata that a stream has is that of the decoder. -/
theorem Tracks.metadata?_eq (h : Tracks bs given s) {metadata : Metadata}
    (hmetadata : s.metadata? = some metadata) :
    (Standing.whole bs).2.phase.metadata? = some metadata := by
  rw [← h.standing, ahead_eq h.source]
  exact Standing.metadata?_call hmetadata

/-! ### Reading -/

/-- A piece is what the source has at the place reached. -/
theorem readChunk_eq (h : s.source = .ofBytes bs) :
    s.readChunk =
      if (bs.drop s.offset).take s.chunkSize = [] then
        (false, s)
      else
        (true, { s with
          decoder := s.decoder.write ((bs.drop s.offset).take s.chunkSize)
          offset := s.offset + ((bs.drop s.offset).take s.chunkSize).length }) := by
  have hread : Source.read s.source s.offset s.chunkSize =
      ((bs.drop s.offset).take s.chunkSize, s.source) := by
    rw [h]
    exact Prod.ext (MemorySource.read_eq_take_drop _ _ _) rfl
  rw [readChunk, hread]
  simp only [List.isEmpty_iff]

/-- Reading changes neither the queue nor how the stream is marked. -/
theorem readChunk_frame (s : DecodingStream MemorySource) :
    s.readChunk.2.queue = s.queue ∧ s.readChunk.2.fault = s.fault ∧
      s.readChunk.2.pending = s.pending ∧ s.readChunk.2.exhausted = s.exhausted := by
  simp only [readChunk]
  split <;> exact ⟨rfl, rfl, rfl, rfl⟩

/-- Reading a piece brings nothing new: it was ahead before. -/
theorem Tracks.readChunk (h : Tracks bs given s) : Tracks bs given s.readChunk.2 := by
  rw [readChunk_eq h.source]
  split
  · exact h
  · generalize hpiece : (bs.drop s.offset).take s.chunkSize = piece
    have hprefix : piece <+: bs.drop s.offset := hpiece ▸ List.take_prefix _ _
    have hlength := hprefix.length_le
    have hdrop : piece ++ bs.drop (s.offset + piece.length) = bs.drop s.offset := by
      rw [← List.drop_drop]
      exact List.prefix_iff_eq_append.mp hprefix
    have hahead : ahead { s with
        decoder := s.decoder.write piece
        offset := s.offset + piece.length } = s.ahead := by
      rw [ahead_eq h.source, ahead_eq (by exact h.source)]
      dsimp only
      rw [Decoder.standing_write h.wellFormed, ← Standing.write_append, hdrop]
    have hoffset := h.offset_le
    rw [List.length_drop] at hlength
    constructor
    case source => exact h.source
    case chunkSize_pos => exact h.chunkSize_pos
    case offset_le => dsimp only; omega
    case wellFormed => exact h.wellFormed.write piece
    case records => rw [hahead]; exact h.records
    case problems => rw [hahead]; exact h.problems
    case outcome => rw [hahead]; exact h.outcome
    case standing => rw [hahead]; exact h.standing
    case queue => exact h.queue

/-- A source that gives no piece has been read to its end. -/
theorem drop_of_readChunk_eq_false (h : Tracks bs given s) (hread : s.readChunk.1 = false) :
    s.readChunk.2 = s ∧ bs.drop s.offset = [] := by
  rw [readChunk_eq h.source] at hread ⊢
  split at hread
  · rename_i hempty
    rw [if_pos hempty]
    have hpos := h.chunkSize_pos
    rw [List.take_eq_nil_iff] at hempty
    exact ⟨rfl, hempty.resolve_left (by omega)⟩
  · cases hread

/-! ### Decoding -/

/-- Decoding moves what it gives from ahead into the queue. -/
theorem Tracks.fillQueue (h : Tracks bs given s) (hqueue : s.queue = []) :
    Tracks bs given s.fillQueue.2 := by
  have hcall := s.decoder.standing.call_write (bs.drop s.offset)
  have hview := Decoder.follows_view h.wellFormed
  have hstanding : s.fillQueue.2.decoder.standing = s.decoder.standing.call.2 :=
    Decoder.standing_decodeViews h.wellFormed
  have hitems : s.fillQueue.2.queue = s.decoder.standing.call.1.records :=
    Decoder.records_decodeViews h.wellFormed
  have hproblems : s.fillQueue.2.problems = s.problems ++ s.decoder.standing.call.1.problems :=
    congrArg (s.problems ++ ·) hview.problems
  have hnow : s.fillQueue.2.ahead = (s.decoder.standing.call.2.write (bs.drop s.offset)).call := by
    rw [ahead_eq (s := s.fillQueue.2) h.source, hstanding]
    rfl
  rw [← ahead_eq h.source, ← hnow] at hcall
  have hrecords : s.ahead.1.records = s.fillQueue.2.queue ++ s.fillQueue.2.ahead.1.records := by
    rw [hcall, Yield.records_append, hitems]
  constructor
  case source => exact h.source
  case chunkSize_pos => exact h.chunkSize_pos
  case offset_le => exact h.offset_le
  case wellFormed => exact h.wellFormed.decodeViews
  case records =>
    have hall := h.records
    rw [hrecords, hqueue] at hall
    simpa using hall
  case problems =>
    have hall := h.problems
    rw [hcall] at hall
    rw [hproblems]
    simpa [Yield.append] using hall
  case outcome =>
    have hend := h.outcome
    rwa [hcall] at hend
  case standing =>
    have hend := h.standing
    rwa [hcall] at hend
  case queue =>
    intro hmetadata
    rw [hitems]
    refine Standing.records_call_of_isNone ?_
    rw [← hstanding]
    exact hmetadata

/-- A decoder that was called has nothing more to give. -/
theorem call_standing_fillQueue (h : Tracks bs given s) :
    s.fillQueue.2.decoder.standing.call =
      ({ outcome := s.fillQueue.1 }, s.fillQueue.2.decoder.standing) := by
  have hstanding : s.fillQueue.2.decoder.standing = s.decoder.standing.call.2 :=
    Decoder.standing_decodeViews h.wellFormed
  have houtcome : s.fillQueue.1 = s.decoder.standing.call.1.outcome :=
    (Decoder.follows_view h.wellFormed).outcome
  rw [hstanding, houtcome, Standing.call_call]

/-- A decoder that has failed stays so. -/
theorem stuck_fillQueue (h : Tracks bs given s) {fault : Fault}
    (hfault : s.fillQueue.1 = .error fault) : Stuck fault s.fillQueue.2 := by
  intro more
  have hstanding : s.fillQueue.2.decoder.standing = s.decoder.standing.call.2 :=
    Decoder.standing_decodeViews h.wellFormed
  have houtcome : s.fillQueue.1 = s.decoder.standing.call.1.outcome :=
    (Decoder.follows_view h.wellFormed).outcome
  rw [hstanding, Standing.call_write_of_error (houtcome.symm.trans hfault)]

/-! ### The end of the stream -/

/-- What is to be given out does not depend on how the stream is marked as ended. -/
theorem Tracks.mark (h : Tracks bs given s) (fault pending : Option Fault) (exhausted : Bool) :
    Tracks bs given { s with fault := fault, pending := pending, exhausted := exhausted } :=
  ⟨h.source, h.chunkSize_pos, h.offset_le, h.wellFormed, h.records, h.problems, h.outcome,
    h.standing, h.queue⟩

theorem Tracks.finish (h : Tracks bs given s) : Tracks bs given s.finish :=
  h.mark s.endFault s.pending true

/-- A stream that is read to its end and has nothing more to give ends as it must. -/
theorem finished_finish (h : Tracks bs given s) (hqueue : s.queue = [])
    (hdrop : bs.drop s.offset = [])
    (hquiet : s.decoder.standing.call = ({}, s.decoder.standing)) : Finished bs s.finish := by
  have hahead : s.ahead = ({}, s.decoder.standing) := by
    rw [ahead_eq h.source, hdrop, Standing.write_nil, hquiet]
  have houtcome : (Standing.whole bs).1.outcome = .ok () := by rw [← h.outcome, hahead]
  have hstanding : (Standing.whole bs).2 = s.decoder.standing := by rw [← h.standing, hahead]
  have hoffset : s.offset = bs.length :=
    Nat.le_antisymm h.offset_le (List.drop_eq_nil_iff.mp hdrop)
  constructor
  case ended => simp [ended, finish]
  case queue => exact hqueue
  case outcome =>
    have hsize : Source.size s.source = bs.length := by rw [h.source]; rfl
    have hunread : s.decoder.standing.unread.length = s.decoder.unreadSize :=
      Arena.length_readable h.wellFormed
    have hmetadata : s.decoder.standing.phase.metadata? = s.metadata? := rfl
    have hfinish : s.finish.fault = s.endFault := rfl
    rw [finalOutcome_eq, houtcome, hstanding, hunread, hmetadata, outcome, hfinish, endFault, hsize,
      hoffset]
    by_cases hnone : s.metadata?.isNone = true
    · simp [Source.fault?, hnone]
    · by_cases hleft : 0 < s.decoder.unreadSize
      · simp [Source.fault?, hnone, hleft, Decoder.standing]
      · simp [Source.fault?, hnone, hleft]
  case records => exact congrArg (·.1.records) hahead
  case problems => exact congrArg (·.1.problems) hahead
  case metadata => rw [hstanding]; rfl

/-- A stream whose decoder has failed ends with the fault, once the queue is empty. -/
theorem finished_of_stuck {fault : Fault} (h : Tracks bs given s) (hqueue : s.queue = [])
    (hstuck : Stuck fault s) : Finished bs { s with fault := some fault } := by
  have hahead : s.ahead = (.failure fault, s.decoder.standing.write (bs.drop s.offset)) := by
    rw [ahead_eq h.source, hstuck]
  have houtcome : (Standing.whole bs).1.outcome = .error fault := by
    rw [← h.outcome, hahead]
    rfl
  have hstanding : (Standing.whole bs).2 = s.decoder.standing.write (bs.drop s.offset) := by
    rw [← h.standing, hahead]
  constructor
  case ended => rfl
  case queue => exact hqueue
  case outcome =>
    rw [finalOutcome_eq, houtcome]
    rfl
  case records => exact congrArg (·.1.records) hahead
  case problems => exact congrArg (·.1.problems) hahead
  case metadata => rw [hstanding]; rfl

end DecodingStream

end MarketWire
