import MarketWire.Csv.Encoder
import MarketWire.Proofs.BatchCalls
import MarketWire.Proofs.SinkLaws

/-!
# The header row

An encoder of rows can be asked for its header row as often as one likes, for one record type or for
several, and in between it can be given records that it refuses. The sink may fail now and then. Of
all this one row comes to lie in the sink: that of the first header whose write succeeded. Until then
nothing lies there and any type can still be asked for. From then on headers of the same type need no
write, and all others are refused.

Which type that is can be read off the answers, so what the encoder holds is told from the log of its
calls. All that is asked of the sink is that it keeps nothing of a write that fails.

The one fault of a mismatch that can come ahead of the header row is not the encoder's. It passes on
what the sink reports for a failed write, whatever kind that is.

## Main definitions

* `Sink.AllOrNothing` — **the law** of sinks that take a write as a whole or not at all.
* `CsvEncoder.Refused` — records that are refused behind a header row, or where there is none.
* `CsvEncoder.HeaderCalls` — calls for headers and for records that are refused, with their answers.
* `CsvEncoder.Stands` — **the invariant**: the header row of a type was written, or none.

## Main results

* `BufferSink.allOrNothing`, `FileSink.allOrNothing`, `FaultySink.allOrNothing` — sinks with the law.
* `CsvEncoder.Stands.use` — one call keeps the invariant.
* `CsvEncoder.HeaderCalls.stands` — so does a row of calls.
* `CsvEncoder.headerCalls_write_one_row` — **one header row is written, and what it binds to**.
-/

namespace MarketWire

/-! ### Sinks -/

/-- A sink takes all bytes of a write, or none and says so. `Sound` is what is true of it all the
time. -/
structure Sink.AllOrNothing {σ : Type} [Sink σ] (content : σ → Bytes) (Sound : σ → Prop) : Prop where
  /-- A write keeps the sink sound. -/
  sound : ∀ {s : σ} {bs : Bytes}, Sound s → bs ≠ [] → Sound (Sink.accept s bs).2
  /-- A write that succeeds takes all bytes. -/
  taken : ∀ {s t : σ} {bs : Bytes}, Sound s → bs ≠ [] → Sink.accept s bs = (.ok (), t) →
    content t = content s ++ bs
  /-- A write that fails takes nothing. -/
  kept : ∀ {s t : σ} {bs : Bytes} {fault : Fault}, Sound s → bs ≠ [] →
    Sink.accept s bs = (.error fault, t) → content t = content s

/-- **A buffer takes everything.** -/
theorem BufferSink.allOrNothing : Sink.AllOrNothing BufferSink.bytes fun _ => True where
  sound _ _ := trivial
  taken := by
    rintro s _ bs - - ⟨⟩
    exact s.bytes_append bs
  kept := by
    rintro s t bs fault - - ⟨⟩

/-- **A file that can store what it takes takes all or nothing.** -/
theorem FileSink.allOrNothing : Sink.AllOrNothing FileSink.taken FileSink.Stores where
  sound hstores hbs := FileSink.failsForGood.sound hstores (.accept _ hbs)
  taken := by
    intro s t bs hstores hbs hanswer
    rcases accept_cases hstores hbs with ⟨-, _, haccept⟩ | ⟨-, _, haccept, -, htaken⟩
    · cases haccept.symm.trans hanswer
    · cases haccept.symm.trans hanswer
      exact htaken
  kept := by
    intro s t bs fault hstores hbs hanswer
    rcases accept_cases hstores hbs with ⟨-, _, haccept⟩ | ⟨-, _, haccept, -, -⟩
    · cases haccept.symm.trans hanswer
      rfl
    · cases haccept.symm.trans hanswer

/-- A buffer that fails now and then. -/
structure FaultySink where
  /-- What was taken. -/
  bytes : Bytes := []
  /-- The answers to the next writes. Those behind them succeed. -/
  answers : List Outcome := []
  deriving DecidableEq

namespace FaultySink

/-- Answers a write, and takes it if the answer is success. -/
def accept (s : FaultySink) (bs : Bytes) : Outcome × FaultySink :=
  match s.answers with
  | [] => (.ok (), { s with bytes := s.bytes ++ bs })
  | .ok () :: answers => (.ok (), { bytes := s.bytes ++ bs, answers := answers })
  | .error fault :: answers => (.error fault, { s with answers := answers })

instance : Sink FaultySink where
  accept := accept
  flush s := (.ok (), s)
  size s := s.bytes.length

theorem allOrNothing : Sink.AllOrNothing bytes fun _ => True where
  sound _ _ := trivial
  taken := by
    rintro ⟨_, _ | ⟨_ | _, _⟩⟩ t bs - - ⟨⟩ <;> rfl
  kept := by
    rintro ⟨_, _ | ⟨_ | _, _⟩⟩ t bs fault - - ⟨⟩
    rfl

end FaultySink

/-! ### Records that are refused -/

namespace Record

variable {r : Record}

/-- No record is made of bytes with a code outside the catalog. -/
theorem toOwned_of_unknown (h : RType.ofCode? r.header.rtype = none) :
    r.toOwned = .error (.unknownRType r.header.rtype) := by
  rw [toOwned, variant, rtype, Header.rtypeEntry, h]
  rfl

variable {entry : RType} (hentry : RType.ofCode? r.header.rtype = some entry)

include hentry

/-- No record is made of fewer bytes than its type has. -/
theorem toOwned_of_size_lt (h : r.size < entry.recordType.size) :
    r.toOwned = .error (.undersizedRecord r.header.rtype r.size entry.recordType.size) := by
  have hvariant :
      r.variant = .error (.undersizedRecord r.header.rtype r.size entry.recordType.size) := by
    rw [variant, rtype, Header.rtypeEntry, hentry]
    exact if_pos h
  rw [toOwned, hvariant]
  rfl

/-- A record is made of any others. -/
theorem toOwned_of_size_le (h : entry.recordType.size ≤ r.size) :
    r.toOwned = .ok (.ofBytes entry.recordType r.storage) := by
  rw [toOwned, variant_of_size_le hentry h]
  rfl

omit hentry

/-- An empty record has the layout that its code designates, if there is one. -/
theorem variant_zeroed (code : UInt8) :
    (zeroed code).variant =
      match RType.ofCode? code with
      | some entry => .ok entry.recordType
      | none => .error (.unknownRType code) := by
  have hcode : (zeroed code).header.rtype = code := rfl
  cases hentry : RType.ofCode? code with
  | none =>
    rw [variant, rtype, Header.rtypeEntry, hcode, hentry]
    rfl
  | some entry =>
    refine variant_of_size_le (by rw [hcode, hentry]) ?_
    obtain rfl := RType.ofCode?_eq_some_iff.mp hentry
    have hsize : (zeroed entry.code).size = entry.minSize := by cases entry <;> rfl
    exact Nat.le_of_eq (entry.minSize_eq.symm.trans hsize.symm)

end Record

/-- A send timestamp that is to be shown and has no room is a fault. -/
theorem TextStyle.stampOf_of_size_lt {style : TextStyle} (hstyle : style.tsOut = true) {r : Record}
    {entry : RType} (hentry : RType.ofCode? r.header.rtype = some entry)
    (hsize : r.size < entry.recordType.size + 8) :
    style.stampOf r = .error (.missingTsOut r.size) := by
  have htime : r.tsOut = .error (.missingTsOut r.size) := by
    rw [← RType.minSize_eq] at hsize
    rw [Record.tsOut, Record.rtype, Header.rtypeEntry, hentry]
    exact if_pos hsize
  rw [stampOf, if_pos hstyle, htime]
  rfl

namespace CsvEncoder

/-- A record that is refused where the header row of the given type was written, or none. -/
inductive Refused (style : TextStyle) (written : Option RecordType) (r : Record) : Prop
  /-- Its code is outside the catalog. -/
  | unknown (h : RType.ofCode? r.header.rtype = none)
  /-- It is shorter than its type. -/
  | undersized {entry : RType} (h : RType.ofCode? r.header.rtype = some entry)
    (hsize : r.size < entry.recordType.size)
  /-- The header row is that of another type. -/
  | otherType {entry : RType} {t : RecordType} (h : RType.ofCode? r.header.rtype = some entry)
    (hwritten : written = some t) (hother : entry.recordType ≠ t)
  /-- A send timestamp is to be shown and has no room. -/
  | unstamped {entry : RType} (h : RType.ofCode? r.header.rtype = some entry)
    (hstyle : style.tsOut = true) (hsize : r.size < entry.recordType.size + 8)

variable {σ : Type} {e : CsvEncoder σ}

theorem admits_of_none (h : e.rowType = none) (t : RecordType) : e.admits t = true := by
  rw [admits, h]

theorem admits_of_some {bound : RecordType} (h : e.rowType = some bound) (t : RecordType) :
    e.admits t = (bound == t) := by
  rw [admits, h]

variable [Sink σ]

section Records

variable {r : Record} {owned : OwnedRecord} {fault : Fault}

/-- Bytes of which no record is made are refused. -/
theorem encodeRecord_of_toOwned_eq_error (h : r.toOwned = .error fault) :
    e.encodeRecord r = (.error fault, e) := by
  rw [encodeRecord, h]

variable (howned : r.toOwned = .ok owned)

include howned

/-- A record of another type than the header row is refused. -/
theorem encodeRecord_of_not_admits (h : e.admits owned.type = false) :
    e.encodeRecord r = (.error (.rowTypeMismatch r.header.rtype), e) := by
  rw [encodeRecord, howned]
  dsimp only
  rw [h]
  rfl

/-- A record without a send timestamp that is to be shown is refused. -/
theorem encodeRecord_of_stampOf_eq_error (hadmits : e.admits owned.type = true)
    (h : e.style.stampOf r = .error fault) : e.encodeRecord r = (.error fault, e) := by
  rw [encodeRecord, howned]
  dsimp only
  rw [hadmits, h]
  rfl

end Records

/-- A record that is refused leaves the encoder as it is. Without a header row its fault is no mismatch,
since any type is admitted. -/
theorem encodeRecord_of_refused {r : Record} (h : Refused e.style e.rowType r) :
    ∃ fault, e.encodeRecord r = (.error fault, e) ∧
      (e.rowType = none → fault.kind ≠ .mismatchedRecordType) := by
  cases hentry : RType.ofCode? r.header.rtype with
  | none =>
    have howned := Record.toOwned_of_unknown hentry
    exact ⟨_, encodeRecord_of_toOwned_eq_error howned, fun _ hkind => by cases hkind⟩
  | some entry =>
    by_cases hsize : r.size < entry.recordType.size
    · have howned := Record.toOwned_of_size_lt hentry hsize
      exact ⟨_, encodeRecord_of_toOwned_eq_error howned, fun _ hkind => by cases hkind⟩
    have howned := Record.toOwned_of_size_le hentry (Nat.not_lt.mp hsize)
    cases hadmits : e.admits entry.recordType with
    | false =>
      refine ⟨_, encodeRecord_of_not_admits howned hadmits, fun hnone => ?_⟩
      rw [admits_of_none hnone] at hadmits
      cases hadmits
    | true =>
      -- The code, the size and the type are in order, so what is missing is the timestamp.
      have hstamp : e.style.stampOf r = .error (.missingTsOut r.size) := by
        cases h with
        | unknown h => cases hentry.symm.trans h
        | undersized h hless =>
          cases hentry.symm.trans h
          exact absurd hless hsize
        | otherType h hwritten hother =>
          cases hentry.symm.trans h
          rw [admits_of_some hwritten] at hadmits
          exact absurd (beq_iff_eq.mp hadmits).symm hother
        | unstamped h hstyle hroom =>
          cases hentry.symm.trans h
          exact TextStyle.stampOf_of_size_lt hstyle hentry hroom
      exact ⟨_, encodeRecord_of_stampOf_eq_error howned hadmits hstamp, fun _ hkind => by cases hkind⟩

/-! ### Headers -/

/-- A write is answered as the sink answers it. -/
theorem outcome_writeFor (t : RecordType) (text : Text) :
    (e.writeFor t text).1 = (Sink.write e.sink text).1 := by
  rw [writeFor]
  rcases Sink.write e.sink text with ⟨_ | _, _⟩ <;> rfl

/-- A code outside the catalog has no header row. -/
theorem encodeHeader_of_unknown {code : UInt8} (h : RType.ofCode? code = none) :
    e.encodeHeader code = (.error (.unknownRType code), e) := by
  rw [encodeHeader, Record.variant_zeroed, h]

variable {code : UInt8} {entry : RType} (hentry : RType.ofCode? code = some entry)

include hentry

/-- Where no header row was written, it is written now. -/
theorem encodeHeader_of_none (h : e.rowType = none) :
    e.encodeHeader code = e.writeFor entry.recordType (Csv.headerRow e.style entry.recordType) := by
  rw [encodeHeader, Record.variant_zeroed, hentry]
  dsimp only
  rw [admits_of_none h, h]
  rfl

/-- Where a header row was written, another one of its type need not be, and one of another type is
refused. -/
theorem encodeHeader_of_some {t : RecordType} (h : e.rowType = some t) :
    e.encodeHeader code =
      (if entry.recordType = t then .ok () else .error (.rowTypeMismatch code), e) := by
  rw [encodeHeader, Record.variant_zeroed, hentry]
  dsimp only
  rw [admits_of_some h, h]
  by_cases htype : entry.recordType = t
  · rw [htype, beq_self_eq_true, if_pos rfl]
    rfl
  · rw [if_neg htype, beq_eq_false_iff_ne.mpr (Ne.symm htype)]
    rfl

omit hentry

/-- The names of the fields of a row. -/
def columnNames (style : TextStyle) (t : RecordType) : List Text :=
  t.fieldNames ++ if style.tsOut then [Text.ofAscii "ts_out"] else []

theorem headerRow_eq (style : TextStyle) (t : RecordType) :
    Csv.headerRow style t = Text.joinWith Csv.comma (columnNames style t) ++ [Csv.lineFeed] :=
  rfl

/-! ### Calls -/

/-- The type of the header row that a call has asked for, if it was not refused. -/
def answeredType? : EncoderUse × Outcome → Option RecordType
  | (.header code, .ok ()) => (RType.ofCode? code).map RType.recordType
  | _ => none

/-- The type of the first header row that was asked for and not refused. -/
def writtenType? (log : RecordEncoder.Log) : Option RecordType :=
  log.findSome? answeredType?

/-- A call for a header, or one for a record that is refused where the header row of the given type was
written, or none. -/
inductive WritesNoRecord (style : TextStyle) (written : Option RecordType) : EncoderUse → Prop
  /-- A header is asked for. -/
  | header (code : UInt8) : WritesNoRecord style written (.header code)
  /-- A record is refused. -/
  | record {r : Record} (h : Refused style written r) : WritesNoRecord style written (.record r)

/-- Calls one after another, with their answers, that lead from a new encoder to another. -/
inductive HeaderCalls (fresh : CsvEncoder σ) : RecordEncoder.Log → CsvEncoder σ → Prop
  /-- Nothing is called. -/
  | nil : HeaderCalls fresh [] fresh
  /-- A call behind others. -/
  | snoc {log : RecordEncoder.Log} {e : CsvEncoder σ} {call : EncoderUse}
    (h : HeaderCalls fresh log e) (hcall : WritesNoRecord fresh.style (writtenType? log) call) :
    HeaderCalls fresh (log ++ [(call, (RecordEncoder.use e call).1)]) (RecordEncoder.use e call).2

/-! ### The invariant -/

/-- The header row of the given type was written, or none, and nothing else. -/
structure Stands (content : σ → Bytes) (Sound : σ → Prop) (style : TextStyle) (start : Bytes)
    (written : Option RecordType) (e : CsvEncoder σ) : Prop where
  /-- Records are written in the style. -/
  style_eq : e.style = style
  /-- The sink is sound. -/
  sound : Sound e.sink
  /-- The encoder is bound to the type. -/
  rowType_eq : e.rowType = written
  /-- The row lies behind what was there at the start. -/
  content_eq : content e.sink = start ++ (written.map (Csv.headerRow style)).getD []

variable {content : σ → Bytes} {Sound : σ → Prop} {style : TextStyle} {start : Bytes}
variable {written : Option RecordType}

omit [Sink σ] in
theorem Stands.refused (h : Stands content Sound style start written e) {r : Record}
    (hrefused : Refused style written r) : Refused e.style e.rowType r := by
  rw [h.style_eq, h.rowType_eq]
  exact hrefused

/-- A header row is written as a whole, or the write fails and it is not. -/
theorem Stands.writeRow (hlaw : Sink.AllOrNothing content Sound)
    (h : Stands content Sound style start none e) (t : RecordType) :
    ((e.writeFor t (Csv.headerRow style t)).1 = .ok () ∧
      Stands content Sound style start (some t) (e.writeFor t (Csv.headerRow style t)).2) ∨
    ∃ fault, (e.writeFor t (Csv.headerRow style t)).1 = .error fault ∧
      Stands content Sound style start none (e.writeFor t (Csv.headerRow style t)).2 := by
  obtain ⟨hstyle, hsound, hrowType, hcontent⟩ := h
  have hrow : Csv.headerRow style t ≠ [] := List.append_ne_nil_of_right_ne_nil _ nofun
  have hsound' := hlaw.sound hsound hrow
  rw [writeFor, Sink.write_of_ne_nil e.sink hrow]
  cases hanswer : Sink.accept e.sink (Csv.headerRow style t) with
  | mk outcome sink =>
    rw [hanswer] at hsound'
    cases outcome with
    | ok =>
      refine .inl ⟨rfl, hstyle, hsound', rfl, ?_⟩
      rw [hlaw.taken hsound hrow hanswer, hcontent]
      simp
    | error fault =>
      refine .inr ⟨fault, rfl, hstyle, hsound', hrowType, ?_⟩
      rw [hlaw.kept hsound hrow hanswer, hcontent]

/-- **One call keeps the invariant.** -/
theorem Stands.use (hlaw : Sink.AllOrNothing content Sound)
    (h : Stands content Sound style start written e) {call : EncoderUse}
    (hcall : WritesNoRecord style written call) :
    Stands content Sound style start
      (written.or (answeredType? (call, (RecordEncoder.use e call).1)))
      (RecordEncoder.use e call).2 := by
  cases hcall with
  | @record r hrefused =>
    obtain ⟨fault, hanswer, -⟩ := encodeRecord_of_refused (h.refused hrefused)
    change Stands content Sound style start
      (written.or (answeredType? (.record r, (e.encodeRecord r).1))) (e.encodeRecord r).2
    rw [hanswer]
    exact (Option.or_none (o := written)).symm ▸ h
  | header code =>
    change Stands content Sound style start
      (written.or (answeredType? (.header code, (e.encodeHeader code).1))) (e.encodeHeader code).2
    cases hentry : RType.ofCode? code with
    | none =>
      rw [encodeHeader_of_unknown hentry]
      exact (Option.or_none (o := written)).symm ▸ h
    | some entry =>
      cases written with
      | some t =>
        rw [encodeHeader_of_some hentry h.rowType_eq]
        exact h
      | none =>
        rw [encodeHeader_of_none hentry h.rowType_eq, h.style_eq, Option.none_or]
        rcases h.writeRow hlaw entry.recordType with ⟨hok, hstands⟩ | ⟨fault, herror, hstands⟩
        · rw [hok, answeredType?, hentry]
          exact hstands
        · rw [herror]
          exact hstands

/-- **A row of calls keeps the invariant.** -/
theorem HeaderCalls.stands (hlaw : Sink.AllOrNothing content Sound) {s : σ} (hsound : Sound s)
    {log : RecordEncoder.Log} (h : HeaderCalls { sink := s, style := style } log e) :
    Stands content Sound style (content s) (writtenType? log) e := by
  induction h with
  | nil => exact ⟨rfl, hsound, rfl, (List.append_nil _).symm⟩
  | @snoc log e call _ hcall ih =>
    have hlast : writtenType? (log ++ [(call, (RecordEncoder.use e call).1)]) =
        (writtenType? log).or (answeredType? (call, (RecordEncoder.use e call).1)) := by
      rw [writtenType?, List.findSome?_append]
      simp [writtenType?]
    rw [hlast]
    exact ih.use hlaw hcall

/-! ### Answers -/

/-- How the encoder answers where the header row of the given type was written, or none. -/
structure Answers (content : σ → Bytes) (style : TextStyle) (written : Option RecordType)
    (e : CsvEncoder σ) : Prop where
  /-- No header is known for a code outside the catalog. -/
  unknown : ∀ code, RType.ofCode? code = none →
    e.encodeHeader code = (.error (.unknownRType code), e)
  /-- The first header is answered as the sink answers the write of its row. -/
  first : written = none → ∀ code entry, RType.ofCode? code = some entry →
    (e.encodeHeader code).1 = (Sink.write e.sink (Csv.headerRow style entry.recordType)).1
  /-- A header of the same type needs no write. -/
  same : ∀ t, written = some t → ∀ code entry, RType.ofCode? code = some entry →
    entry.recordType = t → e.encodeHeader code = (.ok (), e)
  /-- A header of another type is a mismatch. -/
  other : ∀ t, written = some t → ∀ code entry, RType.ofCode? code = some entry →
    entry.recordType ≠ t → e.encodeHeader code = (.error (.rowTypeMismatch code), e)
  /-- A record that is refused leaves the encoder as it is. -/
  refused : ∀ r, Refused style written r → ∃ fault, e.encodeRecord r = (.error fault, e)
  /-- A call that fails leaves what lies in the sink, and the type, as they are. -/
  error : ∀ call fault e', WritesNoRecord style written call →
    RecordEncoder.use e call = (.error fault, e') →
      content e'.sink = content e.sink ∧ e'.rowType = e.rowType
  /-- Ahead of the first header a mismatch is what the sink has reported for the write of its row. -/
  mismatch : written = none → ∀ call fault, WritesNoRecord style written call →
    (RecordEncoder.use e call).1 = .error fault → fault.kind = .mismatchedRecordType →
      ∃ code entry, call = .header code ∧ RType.ofCode? code = some entry ∧
        (Sink.write e.sink (Csv.headerRow style entry.recordType)).1 = .error fault

/-- **Answers follow from the invariant.** -/
theorem Stands.answers (hlaw : Sink.AllOrNothing content Sound)
    (h : Stands content Sound style start written e) : Answers content style written e := by
  have hfirst : written = none → ∀ code entry, RType.ofCode? code = some entry →
      (e.encodeHeader code).1 = (Sink.write e.sink (Csv.headerRow style entry.recordType)).1 := by
    rintro rfl code entry hentry
    rw [encodeHeader_of_none hentry h.rowType_eq, h.style_eq, outcome_writeFor]
  refine ⟨fun code => encodeHeader_of_unknown, hfirst, ?same, ?other, ?refused, ?error, ?mismatch⟩
  case same =>
    rintro t rfl code entry hentry htype
    rw [encodeHeader_of_some hentry h.rowType_eq, if_pos htype]
  case other =>
    rintro t rfl code entry hentry htype
    rw [encodeHeader_of_some hentry h.rowType_eq, if_neg htype]
  case refused =>
    intro r hrefused
    obtain ⟨fault, hanswer, -⟩ := encodeRecord_of_refused (h.refused hrefused)
    exact ⟨fault, hanswer⟩
  case error =>
    intro call fault e' hcall hanswer
    have hnext := h.use hlaw hcall
    rw [hanswer] at hnext
    have hnone : answeredType? (call, .error fault) = none := by cases call <;> rfl
    rw [hnone, Option.or_none] at hnext
    exact ⟨hnext.content_eq.trans h.content_eq.symm, hnext.rowType_eq.trans h.rowType_eq.symm⟩
  case mismatch =>
    rintro rfl call fault hcall hanswer hkind
    cases hcall with
    | @record r hrefused =>
      obtain ⟨fault', hanswer', hearly⟩ := encodeRecord_of_refused (h.refused hrefused)
      have hsame : (e.encodeRecord r).1 = .error fault := hanswer
      rw [hanswer'] at hsame
      cases hsame
      exact absurd hkind (hearly h.rowType_eq)
    | header code =>
      have hsame : (e.encodeHeader code).1 = .error fault := hanswer
      cases hentry : RType.ofCode? code with
      | none =>
        rw [encodeHeader_of_unknown hentry] at hsame
        cases hsame
        cases hkind
      | some entry => exact ⟨code, entry, rfl, hentry, (hfirst rfl code entry hentry).symm.trans hsame⟩

/-- Five codes are those of bars. -/
theorem recordType_eq_ohlcv_iff (code : UInt8) :
    (RType.ofCode? code).map RType.recordType = some .ohlcv ↔
      code ∈ [0x11, 0x20, 0x21, 0x22, 0x23] := by
  constructor
  · intro h
    obtain ⟨entry, hentry, htype⟩ := Option.map_eq_some_iff.mp h
    obtain rfl := RType.ofCode?_eq_some_iff.mp hentry
    revert htype
    cases entry <;> decide
  · simp only [List.mem_cons, List.not_mem_nil, or_false]
    rintro (rfl | rfl | rfl | rfl | rfl) <;> decide

/-- **One header row is written.** Headers are asked for in any order, and in between records are given
that are refused, with a sink that keeps nothing of a write that fails. Nothing comes to lie in the
sink until a header succeeds, and from then on its one row does: the names of the fields with commas
between them, that of the send timestamp last if it is shown, and a line end. The next call is
answered accordingly, and five codes ask for the same row, that of bars. -/
theorem headerCalls_write_one_row (hlaw : Sink.AllOrNothing content Sound) {s : σ} (hsound : Sound s)
    {log : RecordEncoder.Log} (h : HeaderCalls { sink := s, style := style } log e) :
    let written := writtenType? log
    let row t := Text.joinWith Csv.comma (columnNames style t) ++ [Csv.lineFeed]
    content e.sink = content s ++ (written.map row).getD [] ∧ e.rowType = written ∧
      Answers content style written e ∧
      ∀ code, (RType.ofCode? code).map RType.recordType = some .ohlcv ↔
        code ∈ [0x11, 0x20, 0x21, 0x22, 0x23] := by
  intro written row
  have hstands := h.stands hlaw hsound
  have hrow : Csv.headerRow style = row := funext (headerRow_eq style)
  exact ⟨hrow ▸ hstands.content_eq, hstands.rowType_eq, hstands.answers hlaw, recordType_eq_ohlcv_iff⟩

/-- An encoder of stamped records over a sink whose first two writes fail, the second of them with a
mismatch. -/
def exampleEncoder : CsvEncoder FaultySink where
  sink := { answers := [.error (.ofKind .writeFailed), .error (.ofKind .mismatchedRecordType)] }
  style := { tsOut := true }

/-- A bar without a send timestamp. -/
def unstampedBar : Record where
  storage := [14, 0x20] ++ List.replicate 54 0

theorem headerCalls_write_one_row_exampleCalls :
    ∃ log e, HeaderCalls exampleEncoder log e ∧ writtenType? log = some .ohlcv ∧
      e.sink.bytes = Text.ofAscii
        "rtype,publisher_id,product_id,ts_event,open,high,low,close,volume,ts_out\n" ∧
      e.encodeHeader 0x11 = (.ok (), e) ∧
      e.encodeHeader 0x00 = (.error (.rowTypeMismatch 0x00), e) := by
  have hunknown : RType.ofCode? (Record.mk [4, 0x99]).header.rtype = none := by decide
  have hbar : RType.ofCode? unstampedBar.header.rtype = some .ohlcv1S := by decide
  have hnil : HeaderCalls exampleEncoder [] exampleEncoder := .nil
  have hcalls := (((((hnil.snoc (.header 0x20)).snoc (.record (.unknown hunknown))).snoc
    (.header 0x12)).snoc (.header 0x23)).snoc (.record (.unstamped hbar rfl (by decide)))).snoc
    (.header 0x00)
  obtain ⟨hcontent, -, hanswers, -⟩ := headerCalls_write_one_row FaultySink.allOrNothing trivial hcalls
  refine ⟨_, _, hcalls, ?_⟩
  generalize hlog : writtenType? _ = written at hcontent hanswers ⊢
  have hwritten : written = some .ohlcv := by
    rw [← hlog]
    decide +kernel
  subst hwritten
  refine ⟨rfl, hcontent.trans ?_, hanswers.same .ohlcv rfl 0x11 .ohlcvDeprecated rfl rfl,
    hanswers.other .ohlcv rfl 0x00 .mbp0 rfl nofun⟩
  decide +kernel

/-- A sink may report a mismatch of its own, and then the first header does. -/
theorem encodeHeader_passes_on_mismatch :
    let fault := Fault.ofKind .mismatchedRecordType
    let fresh : CsvEncoder FaultySink := { sink := { answers := [.error fault] } }
    Sink.AllOrNothing FaultySink.bytes (fun _ => True) ∧ HeaderCalls fresh [] fresh ∧
      writtenType? [] = none ∧ (fresh.encodeHeader 0x00).1 = .error fault ∧
      fault.kind = .mismatchedRecordType :=
  ⟨FaultySink.allOrNothing, .nil, rfl, rfl, rfl⟩

end CsvEncoder

end MarketWire
