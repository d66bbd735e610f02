import Mathlib.Logic.Relation
import MarketWire.Proofs.EncoderRuns
import MarketWire.Sink.File
import MarketWire.Sink.Stream

/-!
# Sinks that fail for good

Most sinks fail in one way. A write takes all of its bytes, or it takes some from their front and the
sink is broken from then on: it takes nothing more, and every write to it fails. An output stream with
room for so many bytes is of this kind, and a file that cannot be written.

A write of no bytes succeeds on every sink and does not reach it, so what a program does to a sink is a
row of uses, each of them a write of some bytes or a flush. A broken sink stays as it is along such a
row, and a buffer only grows.

## Main definitions

* `Sink.Use` — one use of a sink.
* `Sink.FailsForGood` — **the law** of sinks that take what they can and then nothing more.
* `WatchedSink` — a sink of which it is known whether a write to it has failed.
* `WatchedSink.Level`, `WatchedSink.Behind` — how such a sink compares with a buffer.

## Main results

* `Sink.FailsForGood.of_uses` — a broken sink takes nothing more.
* `StreamSink.failsForGood`, `FileSink.failsForGood` — streams with a bound and files keep the law.
-/

namespace MarketWire

/-! ### Uses -/

namespace Sink

section Uses

variable {σ : Type} [Sink σ]

/-- One use of a sink. -/
inductive Use : σ → σ → Prop
  /-- Some bytes are written. -/
  | accept (s : σ) {bs : Bytes} (h : bs ≠ []) : Use s (Sink.accept s bs).2
  /-- It is flushed. -/
  | flush (s : σ) : Use s (Sink.flush s).2

/-- A row of uses. -/
abbrev Uses : σ → σ → Prop :=
  Relation.ReflTransGen Use

theorem write_of_ne_nil (s : σ) {bs : Bytes} (h : bs ≠ []) : write s bs = accept s bs := by
  rw [write, if_neg (by simpa using h)]

/-- A write is one use, or none. -/
theorem uses_write (s : σ) (bs : Bytes) : Uses s (write s bs).2 := by
  by_cases hbs : bs = []
  · rw [hbs]
    exact .refl
  · rw [write_of_ne_nil s hbs]
    exact .single (.accept s hbs)

end Uses

end Sink

/-- A buffer only grows. -/
theorem BufferSink.bytes_prefix_of_uses {s t : BufferSink} (h : Sink.Uses s t) :
    s.bytes <+: t.bytes := by
  induction h with
  | refl => exact List.prefix_refl _
  | tail _ huse ih =>
    refine ih.trans ?_
    cases huse with
    | accept =>
      exact (BufferSink.bytes_append _ _).symm ▸ List.prefix_append _ _
    | flush => exact List.prefix_refl _

/-! ### The law -/

namespace Sink

/-- What a write of some bytes comes to. They are all taken, which a broken sink does not do, or the
write fails, a part from their front is taken, and the sink is broken. -/
inductive Attempt {σ : Type} (content : σ → Bytes) (Broken : σ → Prop) (s : σ) (bs : Bytes) :
    Outcome × σ → Prop
  /-- All bytes are taken. -/
  | taken {t : σ} (hintact : ¬Broken s) (hcontent : content t = content s ++ bs) :
    Attempt content Broken s bs (.ok (), t)
  /-- The write fails. -/
  | failed {t : σ} (fault : Fault) {part : Bytes} (hpart : part <+: bs) (hbroken : Broken t)
    (hcontent : content t = content s ++ part) (hearlier : Broken s → part = []) :
    Attempt content Broken s bs (.error fault, t)

/-- A sink takes what it can, and after a write that failed nothing more. `Sound` is what is true of it
all the time. -/
structure FailsForGood {σ : Type} [Sink σ] (content : σ → Bytes) (Sound Broken : σ → Prop) :
    Prop where
  /-- A use keeps the sink sound. -/
  sound : ∀ {s t : σ}, Sound s → Use s t → Sound t
  /-- A write takes all bytes, or a part of them and breaks the sink. -/
  accept : ∀ {s : σ} {bs : Bytes}, Sound s → bs ≠ [] →
    Attempt content Broken s bs (Sink.accept s bs)
  /-- A flush takes nothing away and adds nothing. -/
  flush : ∀ {s : σ}, Sound s → content (Sink.flush s).2 = content s
  /-- A flush does not mend a broken sink. -/
  flush_broken : ∀ {s : σ}, Sound s → Broken s → Broken (Sink.flush s).2

namespace FailsForGood

variable {σ : Type} [Sink σ] {content : σ → Bytes} {Sound Broken : σ → Prop} {s t : σ}

/-- One use leaves a broken sink broken, and nothing is taken. -/
theorem of_use (h : FailsForGood content Sound Broken) (hsound : Sound s) (hbroken : Broken s)
    (huse : Use s t) : Broken t ∧ content t = content s := by
  cases huse with
  | flush => exact ⟨h.flush_broken hsound hbroken, h.flush hsound⟩
  | accept hbs =>
    cases hattempt : Sink.accept s _ with
    | mk outcome t =>
      have hlaw := h.accept hsound hbs
      rw [hattempt] at hlaw
      cases hlaw with
      | taken hintact _ => exact absurd hbroken hintact
      | failed fault _ hbroken' hcontent hearlier =>
        refine ⟨hbroken', ?_⟩
        rw [hcontent, hearlier hbroken, List.append_nil]

/-- A row of uses keeps a sink sound. -/
theorem sound_of_uses (h : FailsForGood content Sound Broken) (hsound : Sound s)
    (huses : Uses s t) : Sound t := by
  induction huses with
  | refl => exact hsound
  | tail _ huse ih => exact h.sound ih huse

/-- **A broken sink takes nothing more**, however it is used. -/
theorem of_uses (h : FailsForGood content Sound Broken) (hsound : Sound s) (hbroken : Broken s)
    (huses : Uses s t) : Broken t ∧ content t = content s := by
  induction huses with
  | refl => exact ⟨hbroken, rfl⟩
  | tail hbefore huse ih =>
    obtain ⟨hstill, hsame⟩ := ih
    obtain ⟨hlast, hlaw⟩ := h.of_use (h.sound_of_uses hsound hbefore) hstill huse
    exact ⟨hlast, hlaw.trans hsame⟩

end FailsForGood

end Sink

/-! ### Sinks that keep the law -/

/-- All that a write can do to a stream: nothing if it has failed, and otherwise it keeps all bytes, or
those that fit and makes it fail. -/
theorem BoundedStream.put_cases (t : BoundedStream) (bs : Bytes) :
    (t.failed = true ∧ t.put bs = t) ∨
      (t.failed = false ∧ t.put bs = { t with kept := t.kept ++ bs }) ∨
      (t.failed = false ∧
        ∃ part, part <+: bs ∧ t.put bs = { t with kept := t.kept ++ part, failed := true }) := by
  obtain ⟨kept, capacity, failed⟩ := t
  cases failed with
  | true => exact .inl ⟨rfl, rfl⟩
  | false =>
    cases capacity with
    | none => exact .inr (.inl ⟨rfl, rfl⟩)
    | some capacity =>
      by_cases hroom : capacity - kept.size < bs.length
      · refine .inr (.inr ⟨rfl, bs.take (capacity - kept.size), List.take_prefix _ _, ?_⟩)
        simp [put, hroom]
      · refine .inr (.inl ⟨rfl, ?_⟩)
        simp [put, hroom, List.take_of_length_le (Nat.not_lt.mp hroom)]

namespace StreamSink

/-- The bytes that a stream with a bound has kept. -/
def kept (s : StreamSink BoundedStream) : Bytes :=
  s.stream.kept.toList

theorem accept_of_failed {s : StreamSink BoundedStream} {bs : Bytes}
    (h : (s.stream.put bs).failed = true) :
    Sink.accept s bs = (.error .streamFailed, { s with stream := s.stream.put bs }) := by
  simp [Sink.accept, accept, check, OutputStream.put, OutputStream.failed, h]

theorem accept_of_intact {s : StreamSink BoundedStream} {bs : Bytes}
    (h : (s.stream.put bs).failed = false) :
    Sink.accept s bs = (.ok (), { stream := s.stream.put bs, size := s.size + bs.length }) := by
  simp [Sink.accept, accept, check, OutputStream.put, OutputStream.failed, h]

/-- **A stream with a bound keeps the law**, and so does one without. -/
theorem failsForGood :
    Sink.FailsForGood kept (fun _ => True) (fun s => s.stream.failed = true) := by
  refine ⟨fun _ _ => trivial, ?accept, fun _ => rfl, fun _ hbroken => hbroken⟩
  case accept =>
    intro s bs _ _
    rcases s.stream.put_cases bs with ⟨hfailed, hput⟩ | ⟨hintact, hput⟩ | ⟨hintact, part, hpart, hput⟩
    · rw [accept_of_failed (by rw [hput, hfailed]), hput]
      exact .failed _ List.nil_prefix hfailed (List.append_nil _).symm fun _ => rfl
    · rw [accept_of_intact (by rw [hput, hintact]), hput]
      exact .taken (by simp [hintact]) (by simp [kept])
    · rw [accept_of_failed (by rw [hput]), hput]
      exact .failed _ hpart rfl (by simp [kept]) fun hbroken => by simp [hintact] at hbroken

end StreamSink

/-- A file that can store what it takes stores all that it holds. -/
theorem BufferedFile.flush_of_stores {f : BufferedFile} (h : f.storeError = none) :
    f.flush = (none, { f with stored := f.stored ++ f.buffered, buffered := #[] }) := by
  obtain ⟨stored, buffered, blockSize, capacity, writeError, storeError⟩ := f
  cases h
  rw [flush]
  split
  · rename_i hempty
    have hnothing : buffered = #[] := Array.isEmpty_iff.mp hempty
    rw [hnothing]
    simp
  · rfl

/-- A file that can store what it takes stores whole blocks and keeps the rest. -/
theorem BufferedFile.putBlocks_of_stores {f : BufferedFile} (h : f.storeError = none) (bs : Bytes) :
    f.putBlocks bs = (none, { f with
      stored := f.stored ++ bs.take (bs.length - bs.length % f.blockSize)
      buffered := (bs.drop (bs.length - bs.length % f.blockSize)).toArray }) := by
  rw [putBlocks, h, ite_self]

/-- A file that can be written and can store what it takes takes all bytes. -/
theorem BufferedFile.put_of_stores {f : BufferedFile} (hwrite : f.writeError = none)
    (hstore : f.storeError = none) (bs : Bytes) :
    ∃ g, f.put bs = (bs.length, .success, g) ∧ g.storeError = none ∧
      g.stored.toList ++ g.buffered.toList = f.stored.toList ++ f.buffered.toList ++ bs := by
  obtain ⟨stored, buffered, blockSize, capacity, writeError, storeError⟩ := f
  cases hwrite
  cases hstore
  rw [put]
  dsimp only
  split
  · rename_i hroom
    exact ⟨_, rfl, rfl, by simp [List.take_of_length_le hroom]⟩
  · rw [flush_of_stores rfl]
    dsimp only
    rw [putBlocks_of_stores rfl]
    refine ⟨_, rfl, rfl, ?_⟩
    simp only [Array.toList_append, Array.toList_appendList, List.append_assoc,
      List.take_append_drop]

namespace FileSink

/-- The bytes that a file has taken. -/
def taken (s : FileSink BufferedFile) : Bytes :=
  match s.file with
  | none => []
  | some file => file.stored.toList ++ file.buffered.toList

/-- What the file takes can be stored. -/
def Stores (s : FileSink BufferedFile) : Prop :=
  ∀ file ∈ s.file, file.storeError = none

/-- The file takes nothing, as one that was opened to be read. -/
def Refuses (s : FileSink BufferedFile) : Prop :=
  ∀ file ∈ s.file, file.writeError ≠ none

/-- All that a write can do to a file that can store what it takes: it fails and changes nothing, or
all bytes are taken. -/
theorem accept_cases {s : FileSink BufferedFile} (hstores : s.Stores) {bs : Bytes} (hbs : bs ≠ []) :
    (s.Refuses ∧ ∃ fault, Sink.accept s bs = (.error fault, s)) ∨
      (¬s.Refuses ∧ ∃ t : FileSink BufferedFile, Sink.accept s bs = (.ok (), t) ∧ t.Stores ∧
        t.taken = s.taken ++ bs) := by
  obtain ⟨file?, size⟩ := s
  cases file? with
  | none => exact .inl ⟨nofun, _, rfl⟩
  | some file =>
    cases hwrite : file.writeError with
    | some error =>
      have hlength : 0 ≠ bs.length := by simpa [eq_comm] using hbs
      refine .inl ⟨?_, .ofWriteError (Text.ofAscii "fwrite") error, ?_⟩
      · rintro _ ⟨⟩
        simp [hwrite]
      · simp [Sink.accept, accept, OutputFile.put, BufferedFile.put, hwrite, hlength]
    | none =>
      obtain ⟨g, hput, hstore, htaken⟩ := BufferedFile.put_of_stores hwrite (hstores file rfl) bs
      refine .inr ⟨fun hrefuses => hrefuses file rfl hwrite,
        { file := some g, size := size + bs.length }, ?_, ?_, htaken⟩
      · simp [Sink.accept, accept, OutputFile.put, hput]
      · rintro _ ⟨⟩
        exact hstore

/-- A flush stores what the file holds. -/
theorem flush_of_stores {s : FileSink BufferedFile} (h : s.Stores) :
    Sink.flush s = (.ok (), { s with file := s.file.map fun file =>
      { file with stored := file.stored ++ file.buffered, buffered := #[] } }) := by
  obtain ⟨file?, size⟩ := s
  cases file? with
  | none => rfl
  | some file =>
    have hflush := BufferedFile.flush_of_stores (h file rfl)
    simp [Sink.flush, flush, OutputFile.flush, hflush]

/-- **A file that can store what it takes keeps the law**, whether it can be written or not. -/
theorem failsForGood : Sink.FailsForGood taken Stores Refuses := by
  refine ⟨?sound, ?accept, ?flush, ?broken⟩
  case sound =>
    intro s t hsound huse
    cases huse with
    | accept hbs =>
      rcases accept_cases hsound hbs with ⟨-, fault, haccept⟩ | ⟨-, t, haccept, hstores, -⟩
      · rw [haccept]
        exact hsound
      · rw [haccept]
        exact hstores
    | flush =>
      rw [flush_of_stores hsound]
      intro _ hstored
      obtain ⟨file, hfile, rfl⟩ := Option.map_eq_some_iff.mp hstored
      exact hsound file hfile
  case accept =>
    intro s bs hsound hbs
    rcases accept_cases hsound hbs with ⟨hrefuses, fault, haccept⟩ | ⟨hintact, t, haccept, -, htaken⟩
    · rw [haccept]
      exact .failed _ List.nil_prefix hrefuses (List.append_nil _).symm fun _ => rfl
    · rw [haccept]
      exact .taken hintact htaken
  case flush =>
    intro s hsound
    rw [flush_of_stores hsound]
    obtain ⟨file?, size⟩ := s
    cases file? <;> simp [taken]
  case broken =>
    intro s hsound hrefuses
    rw [flush_of_stores hsound]
    intro _ hstored
    obtain ⟨file, hfile, rfl⟩ := Option.map_eq_some_iff.mp hstored
    exact hrefuses file hfile

end FileSink

/-! ### Watching a sink -/

/-- A sink of which it is known whether a write to it has failed. -/
structure WatchedSink (σ : Type) where
  /-- The sink. -/
  inner : σ
  /-- Whether a write has failed. -/
  failed : Bool := false

namespace WatchedSink

variable {σ : Type} [Sink σ]

instance : Sink (WatchedSink σ) where
  accept s bs :=
    let (outcome, inner) := Sink.accept s.inner bs
    (outcome, { inner := inner, failed := s.failed || !outcome.isOk })
  flush s :=
    let (outcome, inner) := Sink.flush s.inner
    (outcome, { s with inner := inner })
  size s := Sink.size s.inner

theorem accept_eq (s : WatchedSink σ) (bs : Bytes) :
    Sink.accept s bs = ((Sink.accept s.inner bs).1,
      { inner := (Sink.accept s.inner bs).2
        failed := s.failed || !(Sink.accept s.inner bs).1.isOk }) :=
  rfl

/-- Watching changes nothing about a write. -/
theorem write_inner (s : WatchedSink σ) (bs : Bytes) :
    Sink.write s.inner bs = ((Sink.write s bs).1, (Sink.write s bs).2.inner) := by
  by_cases hbs : bs = []
  · rw [hbs]
    rfl
  · rw [Sink.write_of_ne_nil s hbs, Sink.write_of_ne_nil s.inner hbs]
    rfl

/-- A row of uses goes to the sink that is watched. -/
theorem uses_inner {s t : WatchedSink σ} (h : Sink.Uses s t) : Sink.Uses s.inner t.inner := by
  refine h.lift inner fun _ _ huse => ?_
  cases huse with
  | accept hbs => exact .accept _ hbs
  | flush => exact .flush _

/-- A failure is not forgotten. -/
theorem failed_of_uses {s t : WatchedSink σ} (h : Sink.Uses s t) (hfailed : s.failed = true) :
    t.failed = true := by
  induction h with
  | refl => exact hfailed
  | tail _ huse ih =>
    cases huse with
    | accept hbs => rw [accept_eq, ih, Bool.true_or]
    | flush => exact ih

/-! ### Beside a buffer -/

variable (content : σ → Bytes) (Sound Broken : σ → Prop)

/-- No write has failed, and what was taken is what lies in the buffer. -/
structure Level (s : WatchedSink σ) (b : BufferSink) : Prop where
  /-- The sink is sound. -/
  sound : Sound s.inner
  /-- No write has failed. -/
  failed : s.failed = false
  /-- The sink holds what the buffer holds. -/
  content_eq : content s.inner = b.bytes

/-- A write has failed, and what was taken is a front of what lies in the buffer. -/
structure Behind (s : WatchedSink σ) (b : BufferSink) : Prop where
  /-- The sink is sound. -/
  sound : Sound s.inner
  /-- A write has failed. -/
  failed : s.failed = true
  /-- The sink takes nothing more. -/
  broken : Broken s.inner
  /-- The sink holds a front of what the buffer holds. -/
  content_prefix : content s.inner <+: b.bytes

variable {content Sound Broken}
variable {s t : WatchedSink σ} {b c : BufferSink} (hlaw : Sink.FailsForGood content Sound Broken)

include hlaw

/-- A sink that is level stays so if a write succeeds, and falls behind if it fails. -/
theorem Level.write (h : Level content Sound s b) (bs : Bytes) :
    ((Sink.write s bs).1 = .ok () ∧
      Level content Sound (Sink.write s bs).2 (Sink.write b bs).2) ∨
      ∃ fault, (Sink.write s bs).1 = .error fault ∧
        Behind content Sound Broken (Sink.write s bs).2 (Sink.write b bs).2 := by
  by_cases hbs : bs = []
  · rw [hbs]
    exact .inl ⟨rfl, h⟩
  · have hattempt := hlaw.accept h.sound hbs
    have hsound := hlaw.sound h.sound (.accept s.inner hbs)
    rw [Sink.write_of_ne_nil s hbs, accept_eq, BufferSink.write_eq]
    cases hanswer : Sink.accept s.inner bs with
    | mk outcome t =>
      rw [hanswer] at hattempt hsound
      cases hattempt with
      | taken _ hcontent =>
        refine .inl ⟨rfl, hsound, by simp [h.failed, Except.isOk, Except.toBool], ?_⟩
        rw [BufferSink.bytes_append, ← h.content_eq]
        exact hcontent
      | failed fault hpart hbroken hcontent _ =>
        refine .inr ⟨fault, rfl, hsound, by simp [Except.isOk, Except.toBool], hbroken, ?_⟩
        rw [BufferSink.bytes_append, ← h.content_eq]
        exact hcontent ▸ (List.prefix_append_right_inj _).mpr hpart

/-- A flush keeps a sink level. -/
theorem Level.flush (h : Level content Sound s b) :
    Level content Sound (Sink.flush s).2 (Sink.flush b).2 :=
  ⟨hlaw.sound h.sound (.flush s.inner), h.failed, (hlaw.flush h.sound).trans h.content_eq⟩

/-- A sink that is behind stays so, however it and the buffer are used. -/
theorem Behind.of_uses (h : Behind content Sound Broken s b) (hs : Sink.Uses s t)
    (hb : Sink.Uses b c) : Behind content Sound Broken t c := by
  have hinner := uses_inner hs
  obtain ⟨hbroken, hsame⟩ := hlaw.of_uses h.sound h.broken hinner
  refine ⟨hlaw.sound_of_uses h.sound hinner, failed_of_uses hs h.failed, hbroken, ?_⟩
  rw [hsame]
  exact h.content_prefix.trans (BufferSink.bytes_prefix_of_uses hb)

end WatchedSink

end MarketWire
