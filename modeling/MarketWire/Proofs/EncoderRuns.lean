import MarketWire.Encoder.Binary
import MarketWire.Proofs.MetadataRoundTrip
import MarketWire.Proofs.StreamRecords
import MarketWire.Sink.Buffer

/-!
# Runs of the binary encoder

A binary encoder is called for metadata and for records in any order. What it writes into a buffer is
told by what it accepted: nothing before the first metadata that can be written, and then this
metadata and the records, in the order of the calls. A call that fails leaves the encoder as it is.

A stream over such a buffer gives back what was accepted: the metadata in its normal form, and those
records whose code is in the catalog, byte for byte.

## Main definitions

* `EncoderCall`, `BinaryEncoder.run` — calls in any order, with their outcomes.
* `BinaryEncoder.Holds` — **the invariant**: what lies in the buffer is what was accepted.
* `BinaryEncoder.AnswersCall` — the answer to a call that is made after others.

## Main results

* `BinaryEncoder.perform_cases` — all that one call can do.
* `BinaryEncoder.Holds.run` — calls in any order keep the invariant.
* `BinaryEncoder.run_reads_back` — a stream gives back what was accepted.
-/

namespace MarketWire

/-! ### Buffers -/

namespace BufferSink

/-- The bytes that were written. -/
def bytes (s : BufferSink) : Bytes :=
  s.content.toList

/-- A buffer takes everything. -/
theorem write_eq (s : BufferSink) (bs : Bytes) :
    Sink.write s bs = (.ok (), { content := s.content ++ bs }) := by
  rw [Sink.write]
  split
  · rename_i hempty
    rw [List.isEmpty_iff.mp hempty]
    simp
  · rfl

theorem outcome_write (s : BufferSink) (bs : Bytes) : (Sink.write s bs).1 = .ok () := by
  rw [write_eq]

theorem bytes_append (s : BufferSink) (bs : Bytes) :
    bytes { content := s.content ++ bs } = s.bytes ++ bs := by
  simp [bytes]

end BufferSink

/-! ### Blocks -/

/-- A block that was written can be read at the front of what it begins. -/
theorem Metadata.atFront_of_encode {m : Metadata} (hlisted : m.HasListedCodes) {block : Bytes}
    (h : m.encode = .ok block) :
    atFront block = .ok (some (m.normalize, block.length)) := by
  have hparse := parse_append_of_encode hlisted h []
  obtain ⟨frame, hframe, hmax, -, rfl⟩ := frame_of_encode h
  have hmin := minFrameSize_le_of_encodeFrame hframe
  have hlength := announcedLength_blockOf_append hmax []
  rw [if_neg (by omega), List.append_nil, ← length_blockOf] at hlength
  rw [List.append_nil] at hparse
  rw [atFront, peekLength_eq, hlength]
  dsimp only
  rw [if_neg (Nat.lt_irrefl _), List.take_length, hparse]

/-! ### Calls -/

/-- A call to a binary encoder. -/
inductive EncoderCall
  /-- Write the metadata. -/
  | metadata (m : Metadata)
  /-- Write a record. -/
  | record (r : Record)

namespace EncoderCall

/-- The codes of the metadata are listed, and the header of the record is in order. -/
def IsReadable : EncoderCall → Prop
  | .metadata m => m.HasListedCodes
  | .record r => r.header.Acceptable

/-- The metadata of the call, if it can be written. -/
def opening? : EncoderCall → Option Metadata
  | .metadata m =>
    match m.encode with
    | .ok _ => some m
    | .error _ => none
  | .record _ => none

/-- The record of the call, if the call has succeeded. -/
def accepted? : EncoderCall → Outcome → Option Record
  | .record r, .ok () => some r
  | _, _ => none

theorem accepted?_error (call : EncoderCall) (fault : Fault) :
    call.accepted? (.error fault) = none := by
  cases call <;> rfl

end EncoderCall

namespace BinaryEncoder

section Calls

variable {σ : Type} [Sink σ]

/-- One call. -/
def perform (e : BinaryEncoder σ) : EncoderCall → Outcome × BinaryEncoder σ
  | .metadata m => e.encodeMetadata m
  | .record r => e.encodeRecord r

/-- Calls one after another, each with its outcome. -/
def run (e : BinaryEncoder σ) : List EncoderCall → List (EncoderCall × Outcome) × BinaryEncoder σ
  | [] => ([], e)
  | call :: calls =>
    let (outcome, e) := e.perform call
    let (log, last) := e.run calls
    ((call, outcome) :: log, last)

/-- Every call is answered once and in its turn. -/
theorem map_fst_run (e : BinaryEncoder σ) (calls : List EncoderCall) :
    (e.run calls).1.map Prod.fst = calls := by
  induction calls generalizing e with
  | nil => rfl
  | cons call calls ih => exact congrArg (call :: ·) (ih (e.perform call).2)

/-- The calls of a run may be made in two parts. -/
theorem run_append (e : BinaryEncoder σ) (calls more : List EncoderCall) :
    e.run (calls ++ more) =
      ((e.run calls).1 ++ ((e.run calls).2.run more).1, ((e.run calls).2.run more).2) := by
  induction calls generalizing e with
  | nil => rfl
  | cons call calls ih =>
    simp only [List.cons_append, run, ih]

/-- Metadata is written once. -/
theorem encodeMetadata_of_started {e : BinaryEncoder σ} (h : e.started = true) (m : Metadata) :
    e.encodeMetadata m = (.error .preambleRepeated, e) := by
  rw [encodeMetadata, if_pos h]

/-- No record is written ahead of the metadata. -/
theorem encodeRecord_of_not_started {e : BinaryEncoder σ} (h : e.started = false) (r : Record) :
    e.encodeRecord r = (.error .preambleMissing, e) := by
  rw [encodeRecord, if_neg (by simp [h])]

theorem encodeMetadata_of_error {e : BinaryEncoder σ} (h : e.started = false) {m : Metadata}
    {fault : Fault} (hencode : m.encode = .error fault) : e.encodeMetadata m = (.error fault, e) := by
  rw [encodeMetadata, if_neg (by simp [h]), hencode]

end Calls

/-- An encoder over an empty buffer. -/
def fresh : BinaryEncoder BufferSink where
  sink := {}

/-- The first metadata that can be written. -/
def opening? (calls : List EncoderCall) : Option Metadata :=
  calls.findSome? EncoderCall.opening?

/-- The records whose calls have succeeded. -/
def acceptedRecords (log : List (EncoderCall × Outcome)) : List Record :=
  log.filterMap fun entry => entry.1.accepted? entry.2

/-! ### One call -/

variable {e : BinaryEncoder BufferSink} {opening : Option Metadata} {records : List Record}

theorem encodeMetadata_of_ok (h : e.started = false) {m : Metadata} {block : Bytes}
    (hencode : m.encode = .ok block) :
    e.encodeMetadata m =
      (.ok (), { sink := { content := e.sink.content ++ block }, started := true }) := by
  rw [encodeMetadata, if_neg (by simp [h]), hencode]
  dsimp only
  rw [BufferSink.write_eq]

theorem encodeRecord_of_started (h : e.started = true) (r : Record) :
    e.encodeRecord r =
      (.ok (), { sink := { content := e.sink.content ++ r.bytes }, started := true }) := by
  rw [encodeRecord, if_pos h, BufferSink.write_eq, ← h]

/-- **All that one call can do.** It is refused and changes nothing, or it writes the metadata ahead of
everything else, or a record behind what was written before. -/
theorem perform_cases (e : BinaryEncoder BufferSink) (call : EncoderCall) :
    (∃ fault, e.perform call = (.error fault, e) ∧ (e.started = false → call.opening? = none)) ∨
      (∃ m block, call = .metadata m ∧ e.started = false ∧ m.encode = .ok block ∧
        e.perform call =
          (.ok (), { sink := { content := e.sink.content ++ block }, started := true })) ∨
      ∃ r, call = .record r ∧ e.started = true ∧
        e.perform call =
          (.ok (), { sink := { content := e.sink.content ++ r.bytes }, started := true }) := by
  cases hstarted : e.started with
  | false =>
    cases call with
    | metadata m =>
      cases hencode : m.encode with
      | error fault =>
        refine .inl ⟨fault, encodeMetadata_of_error hstarted hencode, fun _ => ?_⟩
        rw [EncoderCall.opening?, hencode]
      | ok block =>
        exact .inr (.inl ⟨m, block, rfl, rfl, hencode, encodeMetadata_of_ok hstarted hencode⟩)
    | record r => exact .inl ⟨_, encodeRecord_of_not_started hstarted r, fun _ => rfl⟩
  | true =>
    cases call with
    | metadata m => exact .inl ⟨_, encodeMetadata_of_started hstarted m, nofun⟩
    | record r => exact .inr (.inr ⟨r, rfl, rfl, encodeRecord_of_started hstarted r⟩)

/-- A call that fails leaves the encoder as it is. -/
theorem perform_of_error {call : EncoderCall} {fault : Fault}
    (h : (e.perform call).1 = .error fault) : (e.perform call).2 = e := by
  rcases perform_cases e call with ⟨_, hperform, -⟩ | ⟨_, _, -, -, -, hperform⟩ | ⟨_, -, -, hperform⟩
  · rw [hperform]
  · rw [hperform] at h
    cases h
  · rw [hperform] at h
    cases h

/-! ### What the buffer holds -/

/-- What lies in the buffer is what was accepted: nothing, or the metadata and the records. -/
inductive Holds : BinaryEncoder BufferSink → Option Metadata → List Record → Prop
  /-- No metadata was accepted, and so no record. -/
  | nothing {e : BinaryEncoder BufferSink} (hstarted : e.started = false)
    (hbytes : e.sink.bytes = []) : Holds e none []
  /-- Metadata was accepted, and behind it some records. -/
  | stream {e : BinaryEncoder BufferSink} {m : Metadata} {block : Bytes} {records : List Record}
    (hstarted : e.started = true) (hblock : m.encode = .ok block)
    (hbytes : e.sink.bytes = block ++ (records.map (·.bytes)).flatten) : Holds e (some m) records

theorem holds_fresh : Holds fresh none [] :=
  .nothing rfl rfl

theorem Holds.bytes_of_none (h : Holds e none records) : e.sink.bytes = [] := by
  cases h with
  | nothing _ hbytes => exact hbytes

theorem Holds.started_of_none (h : Holds e none records) : e.started = false := by
  cases h with
  | nothing hstarted _ => exact hstarted

theorem Holds.exists_of_some {m : Metadata} (h : Holds e (some m) records) :
    ∃ block, e.started = true ∧ m.encode = .ok block ∧
      e.sink.bytes = block ++ (records.map (·.bytes)).flatten := by
  cases h with
  | stream hstarted hblock hbytes => exact ⟨_, hstarted, hblock, hbytes⟩

/-- **One call keeps the invariant.** -/
theorem Holds.perform (h : Holds e opening records) (call : EncoderCall) :
    Holds (e.perform call).2 (opening.or call.opening?)
      (records ++ (call.accepted? (e.perform call).1).toList) := by
  rcases perform_cases e call with ⟨fault, hperform, hclosed⟩ |
    ⟨m, block, rfl, hnot, hencode, hperform⟩ | ⟨r, rfl, hopen, hperform⟩
  · rw [hperform, EncoderCall.accepted?_error, Option.toList_none, List.append_nil]
    cases h with
    | nothing hstarted hbytes =>
      rw [hclosed hstarted]
      exact .nothing hstarted hbytes
    | stream hstarted hblock hbytes => exact .stream hstarted hblock hbytes
  · cases h with
    | nothing _ hbytes =>
      rw [hperform, EncoderCall.opening?, hencode]
      refine .stream rfl hencode ?_
      rw [BufferSink.bytes_append, hbytes]
      simp [EncoderCall.accepted?]
    | stream hstarted _ _ =>
      rw [hnot] at hstarted
      cases hstarted
  · cases h with
    | nothing hstarted _ =>
      rw [hopen] at hstarted
      cases hstarted
    | stream _ hblock hbytes =>
      rw [hperform]
      refine .stream rfl hblock ?_
      rw [BufferSink.bytes_append, hbytes]
      simp [EncoderCall.accepted?]

/-- **Calls in any order keep the invariant.** -/
theorem Holds.run (h : Holds e opening records) (calls : List EncoderCall) :
    Holds (e.run calls).2 (opening.or (opening? calls))
      (records ++ acceptedRecords (e.run calls).1) := by
  -- The first call leaves an encoder for which the invariant holds with what it has added.
  induction calls generalizing e opening records with
  | nil => simpa [BinaryEncoder.run, opening?, acceptedRecords] using h
  | cons call calls ih =>
    have hlater := ih (h.perform call)
    have hopening : opening? (call :: calls) = call.opening?.or (opening? calls) := by
      rw [opening?, List.findSome?_cons, opening?]
      cases call.opening? <;> rfl
    have hrecords : acceptedRecords (e.run (call :: calls)).1 =
        (call.accepted? (e.perform call).1).toList ++
          acceptedRecords ((e.perform call).2.run calls).1 := by
      rw [BinaryEncoder.run, acceptedRecords, List.filterMap_cons]
      cases call.accepted? (e.perform call).1 <;> rfl
    rw [Option.or_assoc, ← hopening, List.append_assoc, ← hrecords] at hlater
    exact hlater

/-! ### Reading it back -/

/-- A stream over metadata and records gives them back. -/
theorem takeAll_of_stream {m : Metadata} (hlisted : m.HasListedCodes) {block : Bytes}
    (hblock : m.encode = .ok block) (hrecords : ∀ r ∈ records, r.header.Acceptable)
    {chunkSize : Nat} (hchunk : 0 < chunkSize) :
    let read := (DecodingStream.overBytes (block ++ (records.map (·.bytes)).flatten)
      chunkSize).readMetadata
    let taken := RecordStream.takeAll read.2
    read.1 = .ok () ∧ read.2.metadata? = some m.normalize ∧
      taken.1 = (records.filter (·.isListed)).map (fun r => ⟨r.bytes⟩) ∧
      taken.2.outcome = .ok () := by
  intro read taken
  have hfront := Metadata.atFront_of_encode hlisted hblock
  have hframes : ∀ frame ∈ records.map (·.bytes), IsFrame frame := by
    intro frame hframe
    obtain ⟨r, hr, rfl⟩ := List.mem_map.mp hframe
    exact Record.isFrame_bytes (hrecords r hr)
  have hwhole := Decoder.whole_append hfront (records.map (·.bytes)).flatten
  obtain ⟨htaken, houtcome, -, hmetadata⟩ := DecodingStream.takeAll_readMetadata
    (block ++ (records.map (·.bytes)).flatten) hchunk
  obtain ⟨hok, hread⟩ := hmetadata m.normalize (by rw [hwhole]; exact metadata?_after _ _)
  refine ⟨hok, hread, ?_, ?_⟩
  · rw [← Record.knownRecords_map_bytes hrecords]
    refine htaken.trans ?_
    rw [hwhole]
    exact (Standing.records_stream ..).trans (by rw [segment_row hframes])
  · refine houtcome.trans ?_
    rw [finalOutcome_eq_ok_iff (Metadata.atFront_append hfront nofun _), List.drop_left,
      segment_row hframes]

/-- The answer to a call that is made after others. Nothing lies in the buffer ahead of the first
metadata that can be written, and records are refused until then; afterwards other metadata is. A
call that fails writes nothing. -/
structure AnswersCall (before : List EncoderCall) (call : EncoderCall)
    (answer : Outcome × BinaryEncoder BufferSink) : Prop where
  /-- A failure changes nothing. -/
  error : ∀ fault, answer.1 = .error fault → answer.2 = (fresh.run before).2
  /-- Nothing was written ahead of the metadata. -/
  empty : opening? before = none → (fresh.run before).2.sink.bytes = []
  /-- No record is taken ahead of the metadata. -/
  early : opening? before = none → ∀ r, call = .record r →
    ∃ fault, answer.1 = .error fault ∧ fault.kind = .invalidArgument
  /-- No other metadata is taken behind the first. -/
  late : ∀ first, opening? before = some first → ∀ m, call = .metadata m →
    ∃ fault, answer.1 = .error fault ∧ fault.kind = .invalidArgument

theorem answersCall_perform (before : List EncoderCall) (call : EncoderCall) :
    AnswersCall before call ((fresh.run before).2.perform call) := by
  have hholds := holds_fresh.run before
  rw [Option.none_or] at hholds
  constructor
  case error => exact fun fault hfault => perform_of_error hfault
  case empty =>
    intro hnone
    rw [hnone] at hholds
    exact hholds.bytes_of_none
  case early =>
    rintro hnone r rfl
    rw [hnone] at hholds
    rw [perform, encodeRecord_of_not_started hholds.started_of_none]
    exact ⟨_, rfl, rfl⟩
  case late =>
    rintro first hsome m rfl
    rw [hsome] at hholds
    obtain ⟨block, hstarted, -, -⟩ := hholds.exists_of_some
    rw [perform, encodeMetadata_of_started hstarted]
    exact ⟨_, rfl, rfl⟩

/-- Metadata that was accepted comes from one of the calls. -/
theorem mem_of_opening? {calls : List EncoderCall} {m : Metadata} (h : opening? calls = some m) :
    .metadata m ∈ calls := by
  obtain ⟨call, hcall, hopening⟩ := List.exists_of_findSome?_eq_some h
  cases call with
  | metadata m' =>
    rw [EncoderCall.opening?] at hopening
    split at hopening
    · cases hopening
      exact hcall
    · cases hopening
  | record r => cases hopening

/-- Records that were accepted come from the calls. -/
theorem mem_of_mem_acceptedRecords {calls : List EncoderCall} {r : Record}
    (h : r ∈ acceptedRecords (e.run calls).1) : .record r ∈ calls := by
  obtain ⟨⟨call, outcome⟩, hentry, haccepted⟩ := List.mem_filterMap.mp h
  have hcall : call ∈ calls := by
    rw [← map_fst_run e calls]
    exact List.mem_map_of_mem hentry
  cases call with
  | metadata m => cases haccepted
  | record r' =>
    cases outcome with
    | error fault => cases haccepted
    | ok =>
      cases haccepted
      exact hcall

/-- **What an encoder writes is read back.** Calls for metadata with listed codes and for records with
headers in order are made in any order. Nothing is written ahead of the first metadata that can be
written, every record until then and all other metadata afterwards is refused, and a call that
fails writes nothing. A stream over the buffer, whatever the size of its pieces, gives that metadata
in its normal form, then the records that were accepted and have a code of the catalog, byte for
byte and in the order of the calls, and ends well. -/
theorem run_reads_back {calls : List EncoderCall} (hcalls : ∀ call ∈ calls, call.IsReadable)
    {chunkSize : Nat} (hchunk : 0 < chunkSize) :
    let log := (fresh.run calls).1
    let last := (fresh.run calls).2
    (∀ before call after, calls = before ++ call :: after →
      let answer := (fresh.run before).2.perform call
      log = (fresh.run before).1 ++ (call, answer.1) :: (answer.2.run after).1 ∧
        AnswersCall before call answer) ∧
      (opening? calls = none → last.sink.bytes = []) ∧
      ∀ m, opening? calls = some m →
        let read := (DecodingStream.overBytes last.sink.bytes chunkSize).readMetadata
        let taken := RecordStream.takeAll read.2
        read.1 = .ok () ∧ read.2.metadata? = some m.normalize ∧
          taken.1 = ((acceptedRecords log).filter (·.isListed)).map (fun r => ⟨r.bytes⟩) ∧
          taken.2.outcome = .ok () := by
  intro log last
  have hholds : Holds last (opening? calls) (acceptedRecords log) := by
    have hrun := holds_fresh.run calls
    rwa [Option.none_or, List.nil_append] at hrun
  refine ⟨?calls, ?nothing, ?stream⟩
  case calls =>
    rintro before call after rfl
    exact ⟨congrArg Prod.fst (run_append fresh before (call :: after)),
      answersCall_perform before call⟩
  case nothing =>
    intro hnone
    rw [hnone] at hholds
    exact hholds.bytes_of_none
  case stream =>
    intro m hsome
    rw [hsome] at hholds
    obtain ⟨block, -, hblock, hbytes⟩ := hholds.exists_of_some
    rw [hbytes]
    exact takeAll_of_stream (hcalls _ (mem_of_opening? hsome)) hblock
      (fun r hr => hcalls _ (mem_of_mem_acceptedRecords hr)) hchunk

/-- A bar with four bytes of padding. -/
def exampleBar : Record where
  storage := [15, 0x20] ++ List.replicate 58 0

/-- A bar ahead of the metadata and one behind it, with a record of a code outside the catalog and
other metadata in between. -/
def exampleCalls : List EncoderCall :=
  [.record exampleBar, .metadata Metadata.exampleMetadata, .record ⟨[4, 0x99] ++ List.replicate 14 0⟩,
    .metadata {}, .record exampleBar]

theorem run_reads_back_exampleCalls :
    (∀ call ∈ exampleCalls, call.IsReadable) ∧
      (RecordStream.takeAll (DecodingStream.overBytes (fresh.run exampleCalls).2.sink.bytes
        3).readMetadata.2).1 = [exampleBar] := by
  have hreadable : ∀ call ∈ exampleCalls, call.IsReadable := by
    have hlisted : Metadata.exampleMetadata.HasListedCodes := ⟨by decide, by decide, by decide⟩
    have hdefault : Metadata.HasListedCodes {} := ⟨nofun, by decide, by decide⟩
    have hbar : exampleBar.header.Acceptable := by decide +kernel
    have hunknown : (Record.mk ([4, 0x99] ++ List.replicate 14 0)).header.Acceptable := by
      decide +kernel
    simp only [exampleCalls, List.forall_mem_cons, List.not_mem_nil, false_implies, implies_true,
      and_true]
    exact ⟨hbar, hlisted, hunknown, hdefault, hbar⟩
  have hopening : opening? exampleCalls = some Metadata.exampleMetadata := by decide +kernel
  have hthree : 0 < 3 := by decide
  obtain ⟨-, -, hreads⟩ := run_reads_back hreadable hthree
  obtain ⟨-, -, htaken, -⟩ := hreads _ hopening
  have haccepted : ((acceptedRecords (fresh.run exampleCalls).1).filter (·.isListed)).map
      (fun r => Record.mk r.bytes) = [exampleBar] := by
    decide +kernel
  exact ⟨hreadable, htaken.trans haccepted⟩

end BinaryEncoder

end MarketWire
