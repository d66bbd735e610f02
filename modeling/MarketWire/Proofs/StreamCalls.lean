import MarketWire.Proofs.DecoderFraming
import MarketWire.Proofs.StreamAhead

/-!
# Calls to a stream

A stream over a block of memory is called in any order: for the metadata, which is read as far as
needed, and for one record after another. Whatever the order and the size of the pieces, it gives
out the records that a decoder gives when it is handed all bytes at once, in the same order, and it
ends as that decoder does. A fault found behind good records is neither lost nor reported before
them.

## Main definitions

* `StreamCall`, `DecodingStream.serveAll` — calls in any order.
* `DecodingStream.Settled` — the situation of a stream between calls.

## Main results

* `DecodingStream.advances_next`, `readsMetadata` — what one call does.
* `DecodingStream.tracks_serveAll` — calls in any order keep the invariant.
* `DecodingStream.serveAll_eq_take` — each call for a record gives the next one.
* `DecodingStream.serveAll_agrees` — a stream and a decoder agree.
-/

namespace MarketWire

/-- A call to a stream. -/
inductive StreamCall
  /-- Read until the metadata is there. -/
  | readMetadata
  /-- Look at the metadata. -/
  | metadata
  /-- Take the next record. -/
  | next
  deriving DecidableEq, Repr

namespace DecodingStream

section Serving

variable {σ : Type} [Source σ]

/-- One call, with the record that it gives out if there is one. -/
def serve (s : DecodingStream σ) : StreamCall → Option Record × DecodingStream σ
  | .readMetadata => (none, s.readMetadata.2)
  | .metadata => (none, s)
  | .next => s.next

/-- Calls one after another, with the records that they give out. -/
def serveAll (s : DecodingStream σ) : List StreamCall → List Record × DecodingStream σ
  | [] => ([], s)
  | call :: calls =>
    let (record?, s) := s.serve call
    let (records, last) := s.serveAll calls
    (record?.toList ++ records, last)

end Serving

variable {bs : Bytes} {given : List Record} {s : DecodingStream MemorySource}

/-! ### The records in turn -/

/-- A stream whose queue was filled as far as possible: it has records, holds back a fault, or has
finished. -/
inductive Filled (bs : Bytes) (s : DecodingStream MemorySource) : Prop
  /-- There is a record to give out. -/
  | waiting (h : Waiting s) (hqueue : s.queue ≠ [])
  /-- Decoding has failed. -/
  | held {fault : Fault} (h : Held fault s)
  /-- The source has ended. -/
  | finished (h : Finished bs s)

/-- The queue is filled as far as possible. -/
theorem filled_refill (h : Tracks bs given s) (hqueue : s.queue = []) (hfault : s.fault = none)
    (hpending : s.pending = none) (hexhausted : s.exhausted = false) :
    Tracks bs given s.refill ∧ Filled bs s.refill := by
  fun_induction refill s with
  | case1 s filled fault hfilled =>
    have hfill := h.fillQueue hqueue
    exact ⟨hfill.mark s.fault (some fault) s.exhausted,
      .held ⟨hfault, rfl, hexhausted, stuck_fillQueue h hfilled⟩⟩
  | case2 s filled hfilled hempty hread ih =>
    obtain ⟨hqueue', hfault', hpending', hexhausted'⟩ := readChunk_frame filled.2
    exact ih (h.fillQueue hqueue).readChunk (hqueue'.trans (List.isEmpty_iff.mp hempty))
      (hfault'.trans hfault) (hpending'.trans hpending) (hexhausted'.trans hexhausted)
  | case3 s filled hfilled hempty hread =>
    have hfill := h.fillQueue hqueue
    have hquiet := call_standing_fillQueue h
    rw [hfilled] at hquiet
    obtain ⟨hsame, hdrop⟩ := drop_of_readChunk_eq_false hfill (by simpa using hread)
    rw [hsame]
    exact ⟨hfill.finish,
      .finished (finished_finish hfill (List.isEmpty_iff.mp hempty) hdrop hquiet)⟩
  | case4 s filled hfilled hempty =>
    have hquiet := call_standing_fillQueue h
    rw [hfilled] at hquiet
    exact ⟨h.fillQueue hqueue, .waiting ⟨hfault, hpending, hexhausted, hquiet⟩
      fun hnil => hempty (List.isEmpty_iff.mpr hnil)⟩

/-- Between calls a stream waits, holds back a fault behind the metadata, or has finished. -/
inductive Settled (bs : Bytes) (s : DecodingStream MemorySource) : Prop
  /-- Nothing has failed so far. -/
  | waiting (h : Waiting s)
  /-- Decoding has failed, though not before the metadata was there. -/
  | held {fault : Fault} (h : Held fault s) (hmetadata : s.metadata?.isSome)
  /-- Nothing is left. -/
  | finished (h : Finished bs s)

/-- What a call for the next record does. -/
structure Advances (bs : Bytes) (given : List Record) (r : Option Record × DecodingStream MemorySource) :
    Prop where
  /-- The record that is given out is the next one. -/
  tracks : Tracks bs (given ++ r.1.toList) r.2
  /-- The stream is ready for another call. -/
  settled : Settled bs r.2
  /-- Without a record the stream has finished. -/
  finished : r.1 = none → Finished bs r.2

theorem pop_of_cons {r : Record} {rs : List Record} (h : s.queue = r :: rs) :
    s.pop = (some r, { s with queue := rs }) := by
  rw [pop, h]

theorem Held.pop_eq {fault : Fault} (hheld : Held fault s) (hqueue : s.queue = []) :
    s.pop = (none, { s with fault := some fault }) := by
  have hended : ¬s.ended = true := by simp [ended, hheld.fault_eq, hheld.exhausted_eq]
  simp only [pop, hqueue, hheld.pending_eq, if_neg hended]

theorem Finished.pop_eq (hfinished : Finished bs s) : s.pop = (none, s) := by
  simp only [pop, hfinished.queue, hfinished.ended, if_true]
  split <;> rfl

/-- A queued record is given out. -/
theorem Tracks.pop {r : Record} {rs : List Record} (h : Tracks bs given s)
    (hqueue : s.queue = r :: rs) : Tracks bs (given ++ [r]) { s with queue := rs } := by
  refine ⟨h.source, h.chunkSize_pos, h.offset_le, h.wellFormed, ?_, h.problems, h.outcome,
    h.standing, fun hnone => ?_⟩
  · have hrecords := h.records
    rw [hqueue] at hrecords
    rw [List.append_assoc given]
    exact hrecords
  · rw [h.queue hnone] at hqueue
    cases hqueue

/-- A queued record is given out, and behind the last one the fault that was held back. -/
theorem advances_pop (h : Tracks bs given s) (hfilled : Filled bs s) : Advances bs given s.pop := by
  cases hqueue : s.queue with
  | cons r rs =>
    have hmetadata : s.metadata?.isSome := by
      rw [Option.isSome_iff_ne_none]
      intro hnone
      rw [h.queue hnone] at hqueue
      cases hqueue
    rw [pop_of_cons hqueue]
    refine ⟨h.pop hqueue, ?_, nofun⟩
    cases hfilled with
    | waiting hwaiting =>
      exact .waiting ⟨hwaiting.fault_eq, hwaiting.pending_eq, hwaiting.exhausted_eq, hwaiting.quiet⟩
    | held hheld =>
      exact .held ⟨hheld.fault_eq, hheld.pending_eq, hheld.exhausted_eq, hheld.stuck⟩ hmetadata
    | finished hfinished =>
      rw [hfinished.queue] at hqueue
      cases hqueue
  | nil =>
    cases hfilled with
    | waiting _ hqueued => exact absurd hqueue hqueued
    | @held fault hheld =>
      have hfinished := finished_of_stuck h hqueue hheld.stuck
      have hmark := h.mark (some fault) s.pending s.exhausted
      rw [hheld.pop_eq hqueue]
      exact ⟨by rwa [Option.toList_none, List.append_nil], .finished hfinished,
        fun _ => hfinished⟩
    | finished hfinished =>
      rw [hfinished.pop_eq]
      exact ⟨by rwa [Option.toList_none, List.append_nil], .finished hfinished,
        fun _ => hfinished⟩

/-- **A call for the next record goes on as far as needed.** -/
theorem advances_next (h : Tracks bs given s) (hsettled : Settled bs s) :
    Advances bs given s.next := by
  rw [next]
  cases hsettled with
  | waiting hwaiting =>
    by_cases hqueue : s.queue = []
    · obtain ⟨htracks, hfilled⟩ :=
        filled_refill h hqueue hwaiting.fault_eq hwaiting.pending_eq hwaiting.exhausted_eq
      rw [if_pos (by simp [ended, hqueue, hwaiting.fault_eq, hwaiting.pending_eq,
        hwaiting.exhausted_eq])]
      exact advances_pop htracks hfilled
    · rw [if_neg (by simp [hqueue])]
      exact advances_pop h (.waiting hwaiting hqueue)
  | held hheld =>
    rw [if_neg (by simp [hheld.pending_eq])]
    exact advances_pop h (.held hheld)
  | finished hfinished =>
    rw [if_neg (by simp [hfinished.ended])]
    exact advances_pop h (.finished hfinished)

/-! ### The metadata -/

/-- What a call for the metadata does. -/
structure ReadsMetadata (bs : Bytes) (given : List Record)
    (r : Outcome × DecodingStream MemorySource) : Prop where
  /-- No record is given out. -/
  tracks : Tracks bs given r.2
  /-- The stream is ready for another call. -/
  settled : Settled bs r.2
  /-- The metadata is there, or will never be and the outcome is the final one. -/
  outcome : r.1 = .ok () ∧ r.2.metadata?.isSome ∨
    r.1 = finalOutcome bs ∧ (Standing.whole bs).2.phase.metadata? = none

/-- A stream without metadata that is not marked as ended waits. -/
theorem Settled.waiting_of_not_ended (hsettled : Settled bs s) (hnone : ¬s.metadata?.isSome = true)
    (hended : ¬s.ended = true) : Waiting s := by
  cases hsettled with
  | waiting hwaiting => exact hwaiting
  | held _ hsome => exact absurd hsome hnone
  | finished hfinished => exact absurd hfinished.ended hended

/-- A stream without metadata that is marked as ended has finished. -/
theorem Settled.finished_of_ended (hsettled : Settled bs s) (hnone : ¬s.metadata?.isSome = true)
    (hended : s.ended = true) : Finished bs s := by
  cases hsettled with
  | waiting hwaiting => simp [ended, hwaiting.fault_eq, hwaiting.exhausted_eq] at hended
  | held _ hsome => exact absurd hsome hnone
  | finished hfinished => exact hfinished

/-- A stream without metadata that waits reads a piece and decodes it. That keeps the invariant and
does not mark the stream as ended. -/
theorem Waiting.fillQueue_readChunk (hwaiting : Waiting s) (h : Tracks bs given s)
    (hnone : ¬s.metadata?.isSome = true) :
    Tracks bs given s.readChunk.2.fillQueue.2 ∧ s.readChunk.2.fillQueue.2.fault = none ∧
      s.readChunk.2.fillQueue.2.pending = none ∧
      s.readChunk.2.fillQueue.2.exhausted = false := by
  obtain ⟨hqueue, hfault, hpending, hexhausted⟩ := readChunk_frame s
  have hempty : s.queue = [] := h.queue (by simpa using hnone)
  exact ⟨h.readChunk.fillQueue (hqueue.trans hempty), hfault.trans hwaiting.fault_eq,
    hpending.trans hwaiting.pending_eq, hexhausted.trans hwaiting.exhausted_eq⟩

/-- A stream that has finished without metadata has ended as it must. -/
theorem Finished.readsMetadata (hfinished : Finished bs s) (h : Tracks bs given s)
    (hnone : ¬s.metadata?.isSome = true) : ReadsMetadata bs given (s.outcome, s) :=
  ⟨h, .finished hfinished, .inr ⟨hfinished.outcome, by rw [← hfinished.metadata]; simpa using hnone⟩⟩

/-- **A call for the metadata reads as far as the metadata goes, or to the end.** -/
theorem readsMetadata (h : Tracks bs given s) (hsettled : Settled bs s) :
    ReadsMetadata bs given s.readMetadata := by
  fun_induction readMetadata s with
  | case1 s hsome => exact ⟨h, hsettled, .inl ⟨rfl, hsome⟩⟩
  | case2 s hnone hended => exact (hsettled.finished_of_ended hnone hended).readsMetadata h hnone
  | case3 s hnone hended hread filled hfilled ih =>
    obtain ⟨hfill, hfault, hpending, hexhausted⟩ :=
      (hsettled.waiting_of_not_ended hnone hended).fillQueue_readChunk h hnone
    have hquiet := call_standing_fillQueue h.readChunk
    rw [hfilled] at hquiet
    exact ih hfill (.waiting ⟨hfault, hpending, hexhausted, hquiet⟩)
  | case4 s hnone hended hread filled fault hfilled hsome =>
    obtain ⟨hfill, hfault, -, hexhausted⟩ :=
      (hsettled.waiting_of_not_ended hnone hended).fillQueue_readChunk h hnone
    have hheld : Held fault { filled.2 with pending := some fault } :=
      ⟨hfault, rfl, hexhausted, stuck_fillQueue h.readChunk hfilled⟩
    exact ⟨hfill.mark filled.2.fault (some fault) filled.2.exhausted, .held hheld hsome,
      .inl ⟨rfl, hsome⟩⟩
  | case5 s hnone hended hread filled fault hfilled hnone' =>
    obtain ⟨hfill, -⟩ := (hsettled.waiting_of_not_ended hnone hended).fillQueue_readChunk h hnone
    have hfinished := finished_of_stuck hfill (hfill.queue (by simpa using hnone'))
      (stuck_fillQueue h.readChunk hfilled)
    exact hfinished.readsMetadata (hfill.mark (some fault) filled.2.pending filled.2.exhausted) hnone'
  | case6 s hnone hended hread last =>
    have hwaiting := hsettled.waiting_of_not_ended hnone hended
    obtain ⟨hsame, hdrop⟩ := drop_of_readChunk_eq_false h (by simpa using hread)
    have hfinished := finished_finish h (h.queue (by simpa using hnone)) hdrop hwaiting.quiet
    have hlast : last = s.finish := congrArg finish hsame
    rw [hlast]
    exact hfinished.readsMetadata h.finish hnone

/-! ### Calls in any order -/

/-- A stream over a block of memory, before any call. -/
def overBytes (bs : Bytes) (chunkSize : Nat) : DecodingStream MemorySource where
  source := .ofBytes bs
  chunkSize := chunkSize

theorem tracks_overBytes (bs : Bytes) {chunkSize : Nat} (h : 0 < chunkSize) :
    Tracks bs [] (overBytes bs chunkSize) := by
  have hahead : (overBytes bs chunkSize).ahead = Standing.whole bs := by
    rw [ahead_eq rfl]
    simp only [overBytes]
    rw [Decoder.standing_fresh, List.drop_zero, Standing.whole]
  constructor
  case source => rfl
  case chunkSize_pos => exact h
  case offset_le => exact Nat.zero_le _
  case wellFormed => exact .fresh
  case records => rw [hahead]; rfl
  case problems => rw [hahead]; rfl
  case outcome => rw [hahead]
  case standing => rw [hahead]
  case queue => exact fun _ => rfl

theorem waiting_overBytes (bs : Bytes) (chunkSize : Nat) : Waiting (overBytes bs chunkSize) := by
  refine ⟨rfl, rfl, rfl, ?_⟩
  simp only [overBytes]
  rw [Decoder.standing_fresh, Standing.call_fresh]

/-- One call keeps the invariant. -/
theorem tracks_serve (h : Tracks bs given s) (hsettled : Settled bs s) (call : StreamCall) :
    Tracks bs (given ++ (s.serve call).1.toList) (s.serve call).2 ∧ Settled bs (s.serve call).2 := by
  cases call with
  | readMetadata =>
    have hread := readsMetadata h hsettled
    exact ⟨by simpa [serve] using hread.tracks, hread.settled⟩
  | metadata => exact ⟨by simpa [serve] using h, hsettled⟩
  | next =>
    have hnext := advances_next h hsettled
    exact ⟨hnext.tracks, hnext.settled⟩

/-- **Calls in any order keep the invariant.** -/
theorem tracks_serveAll (h : Tracks bs given s) (hsettled : Settled bs s)
    (calls : List StreamCall) :
    Tracks bs (given ++ (s.serveAll calls).1) (s.serveAll calls).2 ∧
      Settled bs (s.serveAll calls).2 := by
  induction calls generalizing given s with
  | nil => exact ⟨by simpa [serveAll] using h, hsettled⟩
  | cons call calls ih =>
    obtain ⟨htracks, hserve⟩ := tracks_serve h hsettled call
    obtain ⟨hlater, hlast⟩ := ih htracks hserve
    exact ⟨by simpa [serveAll] using hlater, hlast⟩

/-- A stream that has finished stays as it is. -/
theorem Finished.serve_eq (hfinished : Finished bs s) (call : StreamCall) : s.serve call = (none, s) := by
  cases call with
  | readMetadata =>
    rw [serve, readMetadata]
    split
    · rfl
    · rw [if_pos hfinished.ended]
  | metadata => rfl
  | next => rw [serve, next, if_neg (by simp [hfinished.ended]), hfinished.pop_eq]

theorem Finished.serveAll_eq (hfinished : Finished bs s) (calls : List StreamCall) :
    s.serveAll calls = ([], s) := by
  induction calls with
  | nil => rfl
  | cons call calls ih =>
    rw [serveAll, hfinished.serve_eq]
    simp only [ih, Option.toList_none, List.append_nil]

/-- A stream that has finished has given out all records. -/
theorem Tracks.records_of_finished (h : Tracks bs given s) (hfinished : Finished bs s) :
    given = (Standing.whole bs).1.records := by
  rw [← h.records, hfinished.queue, hfinished.records, List.append_nil, List.append_nil]

/-- The next record is the one behind those that were given out. -/
theorem Tracks.next_eq (h : Tracks bs given s) (hsettled : Settled bs s) :
    s.next.1 = (Standing.whole bs).1.records[given.length]? := by
  obtain ⟨htracks, -, hfinished⟩ := advances_next h hsettled
  cases hnext : s.next.1 with
  | none =>
    rw [hnext, Option.toList_none, List.append_nil] at htracks
    rw [← htracks.records_of_finished (hfinished hnext), List.getElem?_eq_none (Nat.le_refl _)]
  | some r =>
    have hrecords := htracks.records
    rw [hnext, Option.toList_some, List.append_assoc, List.append_assoc] at hrecords
    rw [← hrecords, List.getElem?_append_right (Nat.le_refl _), Nat.sub_self]
    rfl

/-- What has come out is told by how many of the calls were for a record. -/
theorem Tracks.serveAll_eq (h : Tracks bs given s) (hsettled : Settled bs s)
    (calls : List StreamCall) :
    given ++ (s.serveAll calls).1 =
      (Standing.whole bs).1.records.take (given.length + calls.count .next) := by
  induction calls generalizing given s with
  | nil =>
    rw [← h.records, List.append_assoc, serveAll, List.append_nil]
    exact List.take_left.symm
  | cons call calls ih =>
    obtain ⟨htracks, hserve⟩ := tracks_serve h hsettled call
    have hlater := ih htracks hserve
    rw [serveAll, ← List.append_assoc, hlater]
    cases call with
    | readMetadata => simp [serve]
    | metadata => simp [serve]
    | next =>
      cases hnext : s.next.1 with
      | some r => simp [serve, hnext, Nat.add_assoc, Nat.add_comm 1]
      | none =>
        -- from the first call without a record on, all records have come out
        have hfinished := (advances_next h hsettled).finished hnext
        rw [serve, hnext, Option.toList_none, List.append_nil] at htracks
        have hall := htracks.records_of_finished hfinished
        simp [serve, hnext, hall]

/-- **Each call for a record gives the next one**, whatever is called in between and however small
the pieces are, until there is none. -/
theorem serveAll_eq_take (bs : Bytes) {chunkSize : Nat} (hchunk : 0 < chunkSize)
    (calls : List StreamCall) :
    let records := (Decoder.fresh.write bs).decodeViews.1.items.map (·.record)
    ((overBytes bs chunkSize).serveAll calls).1 = records.take (calls.count .next) ∧
      ((overBytes bs chunkSize).serveAll calls).2.next.1 = records[calls.count .next]? := by
  have hstart := tracks_overBytes bs hchunk
  have hwaiting : Settled bs (overBytes bs chunkSize) := .waiting (waiting_overBytes bs chunkSize)
  have hgiven := hstart.serveAll_eq hwaiting calls
  obtain ⟨htracks, hsettled⟩ := tracks_serveAll hstart hwaiting calls
  have hnext := htracks.next_eq hsettled
  rw [List.nil_append, List.length_nil, Nat.zero_add] at hgiven
  rw [List.nil_append, hgiven, List.length_take] at hnext
  intro records
  have hrecords : records = (Standing.whole bs).1.records := Decoder.records_decodeViews_fresh bs
  rw [hrecords]
  refine ⟨hgiven, hnext.trans ?_⟩
  rcases Nat.le_total (calls.count .next) (Standing.whole bs).1.records.length with hle | hle
  · rw [Nat.min_eq_left hle]
  · rw [Nat.min_eq_right hle, List.getElem?_eq_none (Nat.le_refl _), List.getElem?_eq_none hle]

/-- **A stream and a decoder agree.** Whatever was called before, the records given out are the
first ones of those that a decoder gives out when it is handed all bytes at once, and the metadata
is the same. Once a call for the next record gives none, all of the records and reports have come
out, the stream has ended as it must, and no further call changes anything. A call for the metadata
succeeds exactly when the decoder comes upon it, and otherwise tells how the stream ends. -/
theorem serveAll_agrees (bs : Bytes) {chunkSize : Nat} (hchunk : 0 < chunkSize)
    (calls : List StreamCall) :
    let answer := (Decoder.fresh.write bs).decodeViews
    let given := ((overBytes bs chunkSize).serveAll calls).1
    let s := ((overBytes bs chunkSize).serveAll calls).2
    given <+: answer.1.items.map (·.record) ∧
      (∀ metadata, s.metadata? = some metadata → answer.2.metadata? = some metadata) ∧
      (s.readMetadata.1 = .ok () ↔ answer.2.metadata?.isSome) ∧
      (s.readMetadata.1 = .ok () ∨ s.readMetadata.1 = finalOutcome bs) ∧
      (s.next.1 = none →
        given = answer.1.items.map (·.record) ∧
          s.next.2.problems = answer.1.problems ∧
          s.next.2.outcome = finalOutcome bs ∧
          ∀ more, s.next.2.serveAll more = ([], s.next.2)) := by
  obtain ⟨htracks, hsettled⟩ := tracks_serveAll (tracks_overBytes bs hchunk)
    (.waiting (waiting_overBytes bs chunkSize)) calls
  rw [List.nil_append] at htracks
  intro answer given s
  have hrecords : answer.1.items.map (·.record) = (Standing.whole bs).1.records :=
    Decoder.records_decodeViews_fresh bs
  have hproblems : answer.1.problems = (Standing.whole bs).1.problems :=
    Decoder.problems_decodeViews_fresh bs
  have hmetadata : answer.2.metadata? = (Standing.whole bs).2.phase.metadata? :=
    Decoder.metadata?_decodeViews_fresh bs
  rw [hrecords, hproblems, hmetadata]
  have hread := readsMetadata htracks hsettled
  have hnext := advances_next htracks hsettled
  refine ⟨?given, fun metadata => htracks.metadata?_eq, ?success, ?failure, ?last⟩
  case given =>
    rw [← htracks.records, List.append_assoc]
    exact List.prefix_append _ _
  case success =>
    rcases hread.outcome with ⟨hok, hsome⟩ | ⟨hfinal, hnone⟩
    · obtain ⟨metadata, hfound⟩ := Option.isSome_iff_exists.mp hsome
      simp [s, hok, hread.tracks.metadata?_eq hfound]
    · simp [s, hfinal, hnone, finalOutcome_ne_ok hnone]
  case failure =>
    rcases hread.outcome with ⟨hok, -⟩ | ⟨hfinal, -⟩
    · exact .inl hok
    · exact .inr hfinal
  case last =>
    intro hnone
    have hfinished := hnext.finished hnone
    have hlast := hnext.tracks
    rw [hnone, Option.toList_none, List.append_nil] at hlast
    refine ⟨hlast.records_of_finished hfinished, ?_, hfinished.outcome, hfinished.serveAll_eq⟩
    rw [← hlast.problems, hfinished.problems, List.append_nil]

/-- Two orders with a record of a code outside the catalog between them. -/
def exampleFrames : List Bytes :=
  [Decoder.exampleOrder, [4, 0x99] ++ List.replicate 14 0, [14, 0xA0] ++ List.replicate 54 9]

/-- The records behind their metadata, and behind them the beginning of another one. -/
def exampleStream : Bytes :=
  Decoder.exampleBlock ++ (exampleFrames.flatten ++ Decoder.exampleOrder.take 20)

/-- What a decoder makes of it. -/
theorem whole_exampleStream :
    Standing.whole exampleStream =
      ({ preamble := some Decoder.examplePreamble
         deliveries := (knownRecords exampleFrames).map (.of Decoder.examplePreamble)
         problems := [.skippedRecord 16 0x99 192] },
        ⟨.streaming Decoder.examplePreamble, 264, Decoder.exampleOrder.take 20⟩) := by
  have hframes : ∀ frame ∈ exampleFrames, IsFrame frame := by
    simp only [exampleFrames, List.forall_mem_cons, List.not_mem_nil, false_implies, implies_true,
      and_true]
    exact ⟨⟨by decide, by decide, by decide⟩, ⟨by decide, by decide, by decide⟩,
      ⟨by decide, by decide, by decide⟩⟩
  have hskipped : skipped Decoder.exampleBlock.length exampleFrames =
      [.skippedRecord 16 0x99 192] := by
    decide +kernel
  have hlength : Decoder.exampleBlock.length + exampleFrames.flatten.length = 264 := by
    decide +kernel
  have hnone : (Front.ofBytes 264 (Decoder.exampleOrder.take 20)).size? = none := by
    decide +kernel
  have houtcome : (Front.ofBytes 264 (Decoder.exampleOrder.take 20)).outcome = .ok () := by
    decide +kernel
  have hwhole := Decoder.whole_of_frames Decoder.atFront_exampleBlock hframes
    (hlength.symm ▸ hnone)
  rw [hlength, houtcome, hskipped] at hwhole
  exact hwhole

theorem serveAll_agrees_exampleStream :
    0 < 7 ∧ ∃ s,
      (overBytes exampleStream 7).serveAll [.next, .readMetadata, .metadata, .next] =
        ([⟨Decoder.exampleOrder⟩, ⟨[14, 0xA0] ++ List.replicate 54 9⟩], s) ∧
      s.readMetadata.1 = .ok () ∧ s.next.1 = none ∧
      s.next.2.problems = [.skippedRecord 16 0x99 192] ∧
      s.next.2.outcome = .error (.endedInRecord 20 264) ∧
      ∀ more, s.next.2.serveAll more = ([], s.next.2) := by
  have hrecords := Decoder.records_decodeViews_fresh exampleStream
  have hproblems := Decoder.problems_decodeViews_fresh exampleStream
  have hmetadata := Decoder.metadata?_decodeViews_fresh exampleStream
  have houtcome := finalOutcome_eq exampleStream
  have hknown : knownRecords exampleFrames =
      [⟨Decoder.exampleOrder⟩, ⟨[14, 0xA0] ++ List.replicate 54 9⟩] := by
    decide +kernel
  rw [whole_exampleStream, hknown] at hrecords
  rw [whole_exampleStream] at hproblems hmetadata houtcome
  obtain ⟨hgiven, hnext⟩ := serveAll_eq_take exampleStream (by decide : 0 < 7)
    [.next, .readMetadata, .metadata, .next]
  obtain ⟨-, -, hread, -, hlast⟩ := serveAll_agrees exampleStream (by decide : 0 < 7)
    [.next, .readMetadata, .metadata, .next]
  generalize (overBytes exampleStream 7).serveAll [.next, .readMetadata, .metadata, .next] =
    served at hgiven hnext hread hlast ⊢
  obtain ⟨given, s⟩ := served
  rw [hrecords] at hgiven hnext
  obtain ⟨-, hreports, hended, hforever⟩ := hlast hnext
  refine ⟨by decide, s, congrArg (·, s) hgiven, hread.mpr ?_, hnext, hreports.trans hproblems,
    hended.trans houtcome, hforever⟩
  rw [hmetadata]
  rfl

end DecodingStream

end MarketWire
