import MarketWire.Encoder.Bulk
import MarketWire.Proofs.SinkLaws

/-!
# Binary encoders over sinks that fail

After a write has failed an encoder does not behave as one whose sink takes everything. It may still
take itself to be ahead of the metadata, and a batch that was broken off has left out records that the
other encoder writes. But a sink that fails for good takes nothing more, so whatever is called behind
the failure, what it holds stays what it was then, and that is a front of what the other encoder has
written by now.

The comparison is therefore in two states. Until a write fails the two encoders are level: both have
written the same, and have come equally far. From then on the one is behind: its sink is broken, and
holds a front of what lies in the buffer. One call leads from level to level or behind, and from behind
it leads nowhere.

## Main definitions

* `EncoderCommand`, `BinaryEncoder.executeAll` — calls for metadata, records, batches and flushes.
* `BinaryEncoder.Alongside` — **the invariant**: an encoder is level with one over a buffer, or behind.
* `BinaryEncoder.forget` — an encoder over a sink that is no longer watched.

## Main results

* `BinaryEncoder.perform_eq` — a call is refused, or it writes once.
* `BinaryEncoder.uses_execute` — an encoder does nothing to its sink but write and flush.
* `BinaryEncoder.Alongside.executeAll` — commands keep the invariant.
* `BinaryEncoder.executeAll_keeps_front` — a sink that fails holds a front of the whole.
-/

namespace MarketWire

open RecordEncoder

/-- What a call asks an encoder to write, which depends on whether the metadata has been written. -/
def EncoderCall.request (started : Bool) : EncoderCall → Except Fault Bytes
  | .metadata m => if started then .error .preambleRepeated else m.encode
  | .record r => if started then .ok r.bytes else .error .preambleMissing

/-- A call to a binary encoder, or one for a batch, or a flush. -/
inductive EncoderCommand
  /-- Write the metadata or a record. -/
  | call (call : EncoderCall)
  /-- Write records. -/
  | records (rs : List Record)
  /-- Write records of one type. -/
  | typed (t : RecordType) (rs : List Record)
  /-- Flush the sink. -/
  | flush

namespace BinaryEncoder

/-! ### What is done to the sink -/

section Commands

variable {σ : Type} [Sink σ]

/-- One command. -/
def execute (e : BinaryEncoder σ) : EncoderCommand → Outcome × BinaryEncoder σ
  | .call call => e.perform call
  | .records rs => encodeRecords e rs
  | .typed t rs => encodeTyped e t rs
  | .flush => e.flush

/-- Commands one after another, with their outcomes. -/
def executeAll (e : BinaryEncoder σ) : List EncoderCommand → List Outcome × BinaryEncoder σ
  | [] => ([], e)
  | command :: commands =>
    let (outcome, e) := e.execute command
    let (outcomes, last) := e.executeAll commands
    (outcome :: outcomes, last)

/-- A binary stream has no headers, so records of one type are written as any others are. -/
theorem encodeTyped_eq (e : BinaryEncoder σ) (t : RecordType) (rs : List Record) :
    encodeTyped e t rs = encodeRecords e rs := by
  rw [encodeTyped]
  split
  · rfl
  · rfl

/-- A call is refused, or it writes once. An encoder that has started stays so, and one that has not
starts if its write succeeds. -/
theorem perform_eq (e : BinaryEncoder σ) (call : EncoderCall) :
    e.perform call = match call.request e.started with
      | .error fault => (.error fault, e)
      | .ok bs => ((Sink.write e.sink bs).1,
        { sink := (Sink.write e.sink bs).2, started := e.started || (Sink.write e.sink bs).1.isOk }) := by
  cases hstarted : e.started with
  | false =>
    cases call with
    | record r => exact encodeRecord_of_not_started hstarted r
    | metadata m =>
      rw [perform, EncoderCall.request, if_neg Bool.false_ne_true]
      cases hencode : m.encode with
      | error fault => exact encodeMetadata_of_error hstarted hencode
      | ok block =>
        rw [encodeMetadata, if_neg (by simp [hstarted]), hencode]
        dsimp only
        split
        · rename_i hwrite
          rw [hwrite]
          rfl
        · rename_i hwrite
          rw [hwrite, hstarted]
          rfl
  | true =>
    cases call with
    | metadata m => exact encodeMetadata_of_started hstarted m
    | record r =>
      rw [perform, encodeRecord, if_pos hstarted, hstarted]
      rfl

theorem uses_perform (e : BinaryEncoder σ) (call : EncoderCall) :
    Sink.Uses e.sink (e.perform call).2.sink := by
  rw [perform_eq]
  cases call.request e.started with
  | error fault => exact .refl
  | ok bs => exact Sink.uses_write e.sink bs

theorem uses_flush (e : BinaryEncoder σ) : Sink.Uses e.sink e.flush.2.sink :=
  .single (.flush e.sink)

theorem uses_encodeRecords (e : BinaryEncoder σ) (rs : List Record) :
    Sink.Uses e.sink (encodeRecords e rs).2.sink := by
  induction rs generalizing e with
  | nil => exact e.uses_flush
  | cons r rs ih =>
    have hrecord := e.uses_perform (.record r)
    rw [encodeRecords]
    cases hanswer : RecordEncoder.encodeRecord e r with
    | mk outcome e' =>
      have hperform : e.perform (.record r) = (outcome, e') := hanswer
      rw [hperform] at hrecord
      cases outcome with
      | ok => exact hrecord.trans (ih e')
      | error fault => exact hrecord

/-- **A command does nothing to the sink but write and flush.** -/
theorem uses_execute (e : BinaryEncoder σ) (command : EncoderCommand) :
    Sink.Uses e.sink (e.execute command).2.sink := by
  cases command with
  | call call => exact e.uses_perform call
  | records rs => exact e.uses_encodeRecords rs
  | typed t rs =>
    rw [execute, encodeTyped_eq]
    exact e.uses_encodeRecords rs
  | flush => exact e.uses_flush

end Commands

/-! ### Beside an encoder over a buffer -/

section Comparison

variable {σ : Type} [Sink σ] (content : σ → Bytes) (Sound Broken : σ → Prop)

/-- Both encoders have come equally far, and have written the same. -/
structure Level (e : BinaryEncoder (WatchedSink σ)) (b : BinaryEncoder BufferSink) : Prop where
  /-- Both have written the metadata, or neither has. -/
  started : e.started = b.started
  /-- The sinks hold the same. -/
  sink : WatchedSink.Level content Sound e.sink b.sink

/-- Where an encoder and one over a buffer are when both have been called in the same way. -/
inductive Alongside (e : BinaryEncoder (WatchedSink σ)) (b : BinaryEncoder BufferSink) : Prop
  /-- No write has failed. -/
  | level (h : Level content Sound e b)
  /-- A write has failed. How far the encoders take themselves to be does not matter any more. -/
  | behind (h : WatchedSink.Behind content Sound Broken e.sink b.sink)

/-- How the answers to one call compare. The encoders are level and have answered alike, or the one
has failed and is behind. -/
inductive Compares :
    Outcome × BinaryEncoder (WatchedSink σ) → Outcome × BinaryEncoder BufferSink → Prop
  /-- No write has failed. -/
  | level {outcome : Outcome} {e : BinaryEncoder (WatchedSink σ)} {b : BinaryEncoder BufferSink}
    (h : Level content Sound e b) : Compares (outcome, e) (outcome, b)
  /-- The write of the call has failed. -/
  | behind {fault : Fault} {outcome : Outcome} {e : BinaryEncoder (WatchedSink σ)}
    {b : BinaryEncoder BufferSink} (h : WatchedSink.Behind content Sound Broken e.sink b.sink) :
    Compares (.error fault, e) (outcome, b)

variable {content Sound Broken}
variable {e : BinaryEncoder (WatchedSink σ)} {b : BinaryEncoder BufferSink}
  (hlaw : Sink.FailsForGood content Sound Broken)

omit [Sink σ] in
theorem Compares.alongside {answer : Outcome × BinaryEncoder (WatchedSink σ)}
    {full : Outcome × BinaryEncoder BufferSink} (h : Compares content Sound Broken answer full) :
    Alongside content Sound Broken answer.2 full.2 := by
  cases h with
  | level h => exact .level h
  | behind h => exact .behind h

include hlaw

/-- Metadata or a record is written by both encoders or by neither. -/
theorem Level.perform (h : Level content Sound e b) (call : EncoderCall) :
    Compares content Sound Broken (e.perform call) (b.perform call) := by
  rw [perform_eq, perform_eq, h.started]
  cases call.request b.started with
  | error fault => exact .level h
  | ok bs =>
    rcases h.sink.write hlaw bs with ⟨hok, hlevel⟩ | ⟨fault, herror, hbehind⟩
    · dsimp only
      rw [hok, BufferSink.outcome_write]
      exact .level ⟨rfl, hlevel⟩
    · dsimp only
      rw [herror]
      exact .behind hbehind

theorem Level.flush (h : Level content Sound e b) : Level content Sound e.flush.2 b.flush.2 :=
  ⟨h.started, h.sink.flush hlaw⟩

/-- A batch keeps encoders level, or it is broken off by a write that fails. -/
theorem Level.encodeRecords (h : Level content Sound e b) (rs : List Record) :
    Alongside content Sound Broken (encodeRecords e rs).2 (encodeRecords b rs).2 := by
  induction rs generalizing e b with
  | nil => exact .level (h.flush hlaw)
  | cons r rs ih =>
    have hcompares : Compares content Sound Broken (RecordEncoder.encodeRecord e r)
        (RecordEncoder.encodeRecord b r) := h.perform hlaw (.record r)
    rw [RecordEncoder.encodeRecords, RecordEncoder.encodeRecords]
    generalize RecordEncoder.encodeRecord e r = answer at hcompares ⊢
    generalize RecordEncoder.encodeRecord b r = full at hcompares ⊢
    cases hcompares with
    | @level outcome e' b' hlevel =>
      cases outcome with
      | ok => exact ih hlevel
      | error fault => exact .level hlevel
    | @behind fault outcome e' b' hbehind =>
      -- The buffer takes the records that are left, too.
      cases outcome with
      | ok => exact .behind (hbehind.of_uses hlaw .refl (b'.uses_encodeRecords rs))
      | error fault => exact .behind hbehind

/-- **One command leaves an encoder level or behind.** -/
theorem Alongside.execute (h : Alongside content Sound Broken e b) (command : EncoderCommand) :
    Alongside content Sound Broken (e.execute command).2 (b.execute command).2 := by
  cases h with
  | behind hbehind =>
    exact .behind (hbehind.of_uses hlaw (e.uses_execute command) (b.uses_execute command))
  | level hlevel =>
    cases command with
    | call call => exact (hlevel.perform hlaw call).alongside
    | records rs => exact hlevel.encodeRecords hlaw rs
    | typed t rs =>
      rw [BinaryEncoder.execute, encodeTyped_eq, BinaryEncoder.execute, encodeTyped_eq]
      exact hlevel.encodeRecords hlaw rs
    | flush => exact .level (hlevel.flush hlaw)

/-- **Commands leave an encoder level or behind.** -/
theorem Alongside.executeAll (h : Alongside content Sound Broken e b)
    (commands : List EncoderCommand) :
    Alongside content Sound Broken (e.executeAll commands).2 (b.executeAll commands).2 := by
  induction commands generalizing e b with
  | nil => exact h
  | cons command commands ih => exact ih (h.execute hlaw command)

end Comparison

/-! ### Without the watch -/

section Forget

variable {σ : Type} [Sink σ]

/-- The encoder over the sink itself. -/
def forget (e : BinaryEncoder (WatchedSink σ)) : BinaryEncoder σ where
  sink := e.sink.inner
  started := e.started

/-- Watching changes nothing about a call. -/
theorem perform_forget (e : BinaryEncoder (WatchedSink σ)) (call : EncoderCall) :
    e.forget.perform call = ((e.perform call).1, (e.perform call).2.forget) := by
  rw [perform_eq, perform_eq, forget]
  cases call.request e.started with
  | error fault => rfl
  | ok bs =>
    dsimp only
    rw [e.sink.write_inner bs]
    rfl

theorem flush_forget (e : BinaryEncoder (WatchedSink σ)) :
    e.forget.flush = (e.flush.1, e.flush.2.forget) :=
  rfl

theorem encodeRecords_forget (e : BinaryEncoder (WatchedSink σ)) (rs : List Record) :
    encodeRecords e.forget rs = ((encodeRecords e rs).1, (encodeRecords e rs).2.forget) := by
  induction rs generalizing e with
  | nil => rfl
  | cons r rs ih =>
    have hrecord : RecordEncoder.encodeRecord e.forget r =
        ((RecordEncoder.encodeRecord e r).1, (RecordEncoder.encodeRecord e r).2.forget) :=
      e.perform_forget (.record r)
    rw [encodeRecords, encodeRecords, hrecord]
    cases RecordEncoder.encodeRecord e r with
    | mk outcome e' =>
      cases outcome with
      | ok => exact ih e'
      | error fault => rfl

theorem execute_forget (e : BinaryEncoder (WatchedSink σ)) (command : EncoderCommand) :
    e.forget.execute command = ((e.execute command).1, (e.execute command).2.forget) := by
  cases command with
  | call call => exact e.perform_forget call
  | records rs => exact e.encodeRecords_forget rs
  | typed t rs =>
    rw [execute, encodeTyped_eq, execute, encodeTyped_eq]
    exact e.encodeRecords_forget rs
  | flush => exact e.flush_forget

/-- **Watching changes nothing.** -/
theorem executeAll_forget (e : BinaryEncoder (WatchedSink σ)) (commands : List EncoderCommand) :
    e.forget.executeAll commands =
      ((e.executeAll commands).1, (e.executeAll commands).2.forget) := by
  induction commands generalizing e with
  | nil => rfl
  | cons command commands ih => simp only [executeAll, execute_forget, ih]

end Forget

/-! ### What a sink that fails is left with -/

/-- **A sink that fails holds a front of the whole.** Over a sink that takes what it can and after a
write that failed nothing more, an encoder is called for metadata, records, batches and flushes, in
any order. What the sink holds then is a front of what lies in a buffer after the same calls, and all
of it if no write has failed. Whether one has is what a watch over the sink tells, which changes
nothing about the calls. -/
theorem executeAll_keeps_front {σ : Type} [Sink σ] {content : σ → Bytes} {Sound Broken : σ → Prop}
    (hlaw : Sink.FailsForGood content Sound Broken) {s : σ} (hsound : Sound s)
    (hempty : content s = []) (commands : List EncoderCommand) :
    let answer := BinaryEncoder.executeAll { sink := s } commands
    let watched := BinaryEncoder.executeAll { sink := WatchedSink.mk s false } commands
    let whole := (fresh.executeAll commands).2.sink.bytes
    content answer.2.sink <+: whole ∧
      watched.1 = answer.1 ∧ watched.2.sink.inner = answer.2.sink ∧
      (watched.2.sink.failed = false → content answer.2.sink = whole) := by
  intro answer watched whole
  have hanswer : answer = (watched.1, watched.2.forget) :=
    executeAll_forget { sink := WatchedSink.mk s false } commands
  have hinner : answer.2.sink = watched.2.sink.inner := by rw [hanswer]; rfl
  have hlevel : Level content Sound { sink := WatchedSink.mk s false } fresh :=
    ⟨rfl, hsound, rfl, hempty⟩
  have halongside : Alongside content Sound Broken watched.2 (fresh.executeAll commands).2 :=
    (Alongside.level hlevel).executeAll hlaw commands
  rw [hinner]
  cases halongside with
  | level hlast =>
    have hsame : content watched.2.sink.inner = whole := hlast.sink.content_eq
    exact ⟨hsame ▸ List.prefix_refl _, congrArg Prod.fst hanswer.symm, rfl, fun _ => hsame⟩
  | behind hlast =>
    refine ⟨hlast.content_prefix, congrArg Prod.fst hanswer.symm, rfl, fun hfailed => ?_⟩
    rw [hlast.failed] at hfailed
    cases hfailed

/-- A stream with room for five bytes keeps the front of the metadata, and a file that cannot be
written takes nothing. -/
theorem executeAll_keeps_front_exampleCalls :
    let commands := exampleCalls.map .call ++ [.records [exampleBar], .flush]
    let whole := (fresh.executeAll commands).2.sink.bytes
    let stream : StreamSink BoundedStream := { stream := { capacity := some 5 } }
    let file : FileSink BufferedFile := .attach { writeError := some .badDescriptor }
    let bounded := (BinaryEncoder.executeAll { sink := stream } commands).2.sink
    let unwritable := (BinaryEncoder.executeAll { sink := file } commands).2.sink
    bounded.kept <+: whole ∧ bounded.kept.length = 5 ∧ unwritable.taken <+: whole := by
  intro commands whole stream file bounded unwritable
  have hstores : file.Stores := by
    rintro _ ⟨⟩
    rfl
  obtain ⟨hbounded, -⟩ := executeAll_keeps_front StreamSink.failsForGood trivial
    (show stream.kept = [] from rfl) commands
  obtain ⟨hunwritable, -⟩ := executeAll_keeps_front FileSink.failsForGood hstores
    (show file.taken = [] from rfl) commands
  exact ⟨hbounded, by decide +kernel, hunwritable⟩

end BinaryEncoder

end MarketWire
