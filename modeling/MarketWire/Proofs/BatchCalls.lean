import MarketWire.Encoder.Bulk
import MarketWire.Proofs.StreamRecords

/-!
# The calls of a batch

Whatever an encoder does with its records, it is called for a batch in one way. Behind the header, if
there is one, the records come in their order, up to the first that fails, and when all are through
there is one flush. What is given back is the first failure, except that a closed sink is none: its kind
stays, and its words stand behind those that name the record or the header.

A list of records and a stream that gives them out and ends well lead to the same calls. A stream is
asked for no record behind one that failed, and not at all if the header fails. If it ends badly there
is no flush, and the fault of the stream is given back.

None of this depends on the encoder, so calls are told from outside: a row of calls leads from one state
of the encoder to another, each with the answer that it was given.

## Main definitions

* `EncoderUse`, `RecordEncoder.Calls` — calls to any encoder, and where they lead.
* `RecordEncoder.BatchLog`, `RecordEncoder.HeadedLog` — **the calls of a batch** and what it gives back.
* `RecordEncoder.Reports` — what is given back for a failure.

## Main results

* `RecordEncoder.conforms_encodeStream` — the calls for a stream.
* `RecordEncoder.encodeRecords_takeAll` — a stream that ends well is encoded as the list of its records.
* `RecordEncoder.batches_conform` — **the calls for lists and streams, with headers and without**.
-/

namespace MarketWire

/-! ### What is given back -/

/-- The words that name a record ahead of those of its fault. -/
def Record.introduction (r : Record) : Text :=
  let h := r.header
  Text.ofAscii "failed to encode record with rtype 0x" ++ Text.hexByte h.rtype ++
    Text.ofAscii ", publisher_id " ++ Text.decimal h.publisherId.toNat ++
    Text.ofAscii ", product_id " ++ Text.decimal h.productId.toNat ++
    Text.ofAscii ", ts_event " ++ Text.decimal h.tsEvent.toNat ++ Text.ofAscii ": "

/-- The words that name a header ahead of those of its fault. -/
def headerIntroduction (code : UInt8) : Text :=
  Text.ofAscii "failed to encode header for rtype 0x" ++ Text.hexByte code ++ Text.ofAscii ": "

theorem Record.message_blame (r : Record) (cause : Fault) :
    (r.blame cause).message = r.introduction ++ cause.message :=
  rfl

theorem Fault.message_inHeader (code : UInt8) (cause : Fault) :
    (Fault.inHeader code cause).message = headerIntroduction code ++ cause.message :=
  rfl

namespace RecordEncoder

/-- What is given back for a failure. A closed sink is success. Any other fault keeps its kind, and its
words stand behind an introduction. -/
inductive Reports (introduction : Text) (fault : Fault) : Outcome → Prop
  /-- The sink was closed. -/
  | closed (h : fault.kind = .sinkClosed) : Reports introduction fault (.ok ())
  /-- The fault is another one. -/
  | told {told : Fault} (h : fault.kind ≠ .sinkClosed) (hkind : told.kind = fault.kind)
    (hmessage : told.message = introduction ++ fault.message) :
    Reports introduction fault (.error told)

theorem reports_forgiveClosed {introduction : Text} {fault : Fault} {blame : Fault → Fault}
    (hkind : (blame fault).kind = fault.kind)
    (hmessage : (blame fault).message = introduction ++ fault.message) :
    Reports introduction fault (forgiveClosed blame (.error fault)) := by
  by_cases hclosed : fault.kind = .sinkClosed
  · rw [forgiveClosed, if_pos hclosed]
    exact .closed hclosed
  · rw [forgiveClosed, if_neg hclosed]
    exact .told hclosed hkind hmessage

theorem reports_blame (r : Record) (fault : Fault) :
    Reports r.introduction fault (forgiveClosed r.blame (.error fault)) :=
  reports_forgiveClosed rfl (r.message_blame fault)

theorem reports_inHeader (code : UInt8) (fault : Fault) :
    Reports (headerIntroduction code) fault (forgiveClosed (.inHeader code) (.error fault)) :=
  reports_forgiveClosed rfl (Fault.message_inHeader code fault)

/-! ### Calls -/

end RecordEncoder

/-- A call to an encoder. -/
inductive EncoderUse
  /-- Encode a record. -/
  | record (r : Record)
  /-- Write the header for a record type code. -/
  | header (code : UInt8)
  /-- Flush. -/
  | flush

namespace RecordEncoder

/-- Calls with their answers. -/
abbrev Log :=
  List (EncoderUse × Outcome)

/-- The calls for records that are all encoded. -/
def accepted (rs : List Record) : Log :=
  rs.map fun r => (.record r, .ok ())

/-- The calls for records of which a stream has given out these and has ended with the fault, if with
one, how often the stream was asked, and what is given back. -/
inductive BatchLog (rs : List Record) (ending : Option Fault) : Log → Nat → Outcome → Prop
  /-- A record fails. Nothing is called and no record is taken after that. -/
  | stopped {before after : List Record} {r : Record} {fault : Fault} {outcome : Outcome}
    (hrs : rs = before ++ r :: after) (h : Reports r.introduction fault outcome) :
    BatchLog rs ending (accepted before ++ [(.record r, .error fault)]) (before.length + 1) outcome
  /-- All records are encoded, and the stream has ended badly. -/
  | brokenOff {fault : Fault} (hending : ending = some fault) :
    BatchLog rs ending (accepted rs) (rs.length + 1) (.error fault)
  /-- All records are encoded, and the flush succeeds. -/
  | flushed (hending : ending = none) :
    BatchLog rs ending (accepted rs ++ [(.flush, .ok ())]) (rs.length + 1) (.ok ())
  /-- All records are encoded, and the flush fails. -/
  | unflushed {fault : Fault} {outcome : Outcome} (hending : ending = none)
    (h : Reports [] fault outcome) :
    BatchLog rs ending (accepted rs ++ [(.flush, .error fault)]) (rs.length + 1) outcome

/-- The same behind the header for a record type code, if there is one. -/
inductive HeadedLog (code? : Option UInt8) (rs : List Record) (ending : Option Fault) :
    Log → Nat → Outcome → Prop
  /-- There is no header. -/
  | bare {log : Log} {taken : Nat} {outcome : Outcome} (hcode : code? = none)
    (h : BatchLog rs ending log taken outcome) : HeadedLog code? rs ending log taken outcome
  /-- The header is written. -/
  | headed {code : UInt8} {log : Log} {taken : Nat} {outcome : Outcome} (hcode : code? = some code)
    (h : BatchLog rs ending log taken outcome) :
    HeadedLog code? rs ending ((.header code, .ok ()) :: log) taken outcome
  /-- The header fails. No record is taken. -/
  | refused {code : UInt8} {fault : Fault} {outcome : Outcome} (hcode : code? = some code)
    (h : Reports (headerIntroduction code) fault outcome) :
    HeadedLog code? rs ending [(.header code, .error fault)] 0 outcome

/-- A record ahead of a batch. -/
theorem BatchLog.cons {rs : List Record} {ending : Option Fault} {log : Log} {taken : Nat}
    {outcome : Outcome} (h : BatchLog rs ending log taken outcome) (r : Record) :
    BatchLog (r :: rs) ending ((.record r, .ok ()) :: log) (taken + 1) outcome := by
  cases h with
  | @stopped before after r' fault outcome hrs hreports =>
    have hfront : r :: rs = (r :: before) ++ r' :: after := congrArg (r :: ·) hrs
    exact .stopped hfront hreports
  | brokenOff hending => exact .brokenOff hending
  | flushed hending => exact .flushed hending
  | unflushed hending hreports => exact .unflushed hending hreports

section Calls

variable {ε : Type} [RecordEncoder ε]

/-- One call. -/
def use (e : ε) : EncoderUse → Outcome × ε
  | .record r => encodeRecord e r
  | .header code => encodeHeader e code
  | .flush => flush e

/-- Calls one after another, with their answers, that lead from one encoder to another. -/
inductive Calls : ε → Log → ε → Prop
  /-- Nothing is called. -/
  | nil (e : ε) : Calls e [] e
  /-- A call, and then others. -/
  | cons {e e' last : ε} {call : EncoderUse} {outcome : Outcome} {log : Log}
    (hcall : use e call = (outcome, e')) (h : Calls e' log last) :
    Calls e ((call, outcome) :: log) last

theorem Calls.single {e e' : ε} {call : EncoderUse} {outcome : Outcome}
    (h : use e call = (outcome, e')) : Calls e [(call, outcome)] e' :=
  .cons h (.nil e')

/-- An encoder is called for a batch as it must be, and gives back what it must. -/
def Conforms (code? : Option UInt8) (rs : List Record) (ending : Option Fault) (e : ε) (taken : Nat)
    (answer : Outcome × ε) : Prop :=
  ∃ log, HeadedLog code? rs ending log taken answer.1 ∧ Calls e log answer.2

variable {rs : List Record} {ending : Option Fault} {e e' : ε} {taken : Nat} {answer : Outcome × ε}

/-- The record at the front is encoded. -/
theorem Conforms.cons {r : Record} (hrecord : encodeRecord e r = (.ok (), e'))
    (h : Conforms none rs ending e' taken answer) :
    Conforms none (r :: rs) ending e (taken + 1) answer := by
  obtain ⟨log, hlog, hcalls⟩ := h
  cases hlog with
  | bare _ hlog => exact ⟨_, .bare rfl (hlog.cons r), .cons hrecord hcalls⟩
  | headed hcode => cases hcode
  | refused hcode => cases hcode

/-- The record at the front fails. -/
theorem conforms_stopped {r : Record} {fault : Fault}
    (hrecord : encodeRecord e r = (.error fault, e')) :
    Conforms none (r :: rs) ending e 1 (forgiveClosed r.blame (.error fault), e') := by
  have hlog : BatchLog (r :: rs) ending (accepted [] ++ [(.record r, .error fault)]) 1
      (forgiveClosed r.blame (.error fault)) :=
    .stopped (List.nil_append (r :: rs)).symm (reports_blame r fault)
  exact ⟨_, .bare rfl hlog, .single hrecord⟩

/-- There are no records, and the stream has ended well. -/
theorem conforms_finish (e : ε) : Conforms none [] none e 1 (finish e) := by
  cases hflush : flush e with
  | mk outcome e' =>
    have hcalls : Calls e [(.flush, outcome)] e' := .single hflush
    have hfinish : finish e = (forgiveClosed id outcome, e') := by rw [finish, hflush]
    rw [hfinish]
    cases outcome with
    | ok => exact ⟨_, .bare rfl (.flushed rfl), hcalls⟩
    | error fault =>
      exact ⟨_, .bare rfl (.unflushed rfl (reports_forgiveClosed rfl rfl)), hcalls⟩

/-- The header is written. -/
theorem Conforms.headed {code : UInt8} (hheader : encodeHeader e code = (.ok (), e'))
    (h : Conforms none rs ending e' taken answer) : Conforms (some code) rs ending e taken answer := by
  obtain ⟨log, hlog, hcalls⟩ := h
  cases hlog with
  | bare _ hlog => exact ⟨_, .headed rfl hlog, .cons hheader hcalls⟩
  | headed hcode => cases hcode
  | refused hcode => cases hcode

/-- The header fails. -/
theorem conforms_refused {code : UInt8} {fault : Fault}
    (hheader : encodeHeader e code = (.error fault, e')) :
    Conforms (some code) rs ending e 0 (forgiveClosed (.inHeader code) (.error fault), e') :=
  ⟨_, .refused rfl (reports_inHeader code fault), .single hheader⟩

end Calls

/-! ### Batches -/

section Batches

variable {ε ς : Type} [RecordEncoder ε] [RecordStream ς] {s : ς}

theorem encodeStream_of_some (e : ε) {r : Record} (hnext : (RecordStream.next s).1 = some r) :
    encodeStream e s =
      match encodeRecord e r with
      | (.ok (), e) => encodeStream e (RecordStream.next s).2
      | (.error fault, e) => (forgiveClosed r.blame (.error fault), e, (RecordStream.next s).2) := by
  rw [encodeStream]
  split
  · rename_i r' hnext'
    obtain rfl := Option.some.inj (hnext.symm.trans hnext')
    rfl
  · rename_i hnone
    rw [hnext] at hnone
    cases hnone

theorem encodeStream_of_none (e : ε) (hnext : (RecordStream.next s).1 = none) :
    encodeStream e s =
      match RecordStream.fault? (RecordStream.next s).2 with
      | some fault => (.error fault, e, (RecordStream.next s).2)
      | none => ((finish e).1, (finish e).2, (RecordStream.next s).2) := by
  rw [encodeStream]
  split
  · rename_i hsome
    rw [hnext] at hsome
    cases hsome
  · rfl

/-- A stream that was asked for so many records. -/
def advance (s : ς) : Nat → ς
  | 0 => s
  | taken + 1 => advance (RecordStream.next s).2 taken

/-- **The calls for a stream.** -/
theorem conforms_encodeStream (e : ε) (s : ς) :
    ∃ taken,
      Conforms none (RecordStream.takeAll s).1 (RecordStream.fault? (RecordStream.takeAll s).2) e
        taken ((encodeStream e s).1, (encodeStream e s).2.1) ∧
      (encodeStream e s).2.2 = advance s taken := by
  -- A record of the stream is one call, and the stream behind it is a shorter one.
  fun_induction RecordStream.takeAll s generalizing e with
  | case1 s r hnext rs last htaken ih =>
    rw [encodeStream_of_some e hnext]
    cases hrecord : encodeRecord e r with
    | mk outcome e' =>
      cases outcome with
      | ok =>
        obtain ⟨taken, hconforms, hstream⟩ := ih e'
        rw [htaken] at hconforms
        exact ⟨taken + 1, hconforms.cons hrecord, hstream⟩
      | error fault => exact ⟨1, conforms_stopped hrecord, rfl⟩
  | case2 s hnext =>
    rw [encodeStream_of_none e hnext]
    cases hending : RecordStream.fault? (RecordStream.next s).2 with
    | none => exact ⟨1, conforms_finish e, rfl⟩
    | some fault => exact ⟨1, ⟨[], .bare rfl (.brokenOff rfl), .nil e⟩, rfl⟩

/-- **A stream that ends well is encoded as the list of its records.** -/
theorem encodeRecords_takeAll (e : ε) (h : RecordStream.fault? (RecordStream.takeAll s).2 = none) :
    ((encodeStream e s).1, (encodeStream e s).2.1) = encodeRecords e (RecordStream.takeAll s).1 := by
  fun_induction RecordStream.takeAll s generalizing e with
  | case1 s r hnext rs last htaken ih =>
    rw [htaken] at ih
    rw [encodeStream_of_some e hnext, encodeRecords]
    cases encodeRecord e r with
    | mk outcome e' =>
      cases outcome with
      | ok => exact ih e' h
      | error fault => rfl
  | case2 s hnext =>
    have hending : RecordStream.fault? (RecordStream.next s).2 = none := h
    rw [encodeStream_of_none e hnext, hending]
    rfl

/-- A list gives out its records and ends well. -/
theorem takeAll_list (rs : List Record) : RecordStream.takeAll rs = (rs, []) := by
  induction rs with
  | nil =>
    rw [RecordStream.takeAll]
    rfl
  | cons r rs ih =>
    rw [RecordStream.takeAll]
    change (r :: (RecordStream.takeAll rs).1, (RecordStream.takeAll rs).2) = (r :: rs, [])
    rw [ih]

/-- **The calls for a list.** -/
theorem conforms_encodeRecords (e : ε) (rs : List Record) :
    ∃ taken, Conforms none rs none e taken (encodeRecords e rs) := by
  obtain ⟨taken, hconforms, -⟩ := conforms_encodeStream e rs
  have hlist := encodeRecords_takeAll (s := rs) e (by rw [takeAll_list]; rfl)
  rw [hlist, takeAll_list] at hconforms
  exact ⟨taken, hconforms⟩

/-- The calls for a list of records of one type. -/
theorem conforms_encodeTyped (e : ε) (t : RecordType) (rs : List Record) :
    ∃ taken, Conforms ((headerOf t rs).map RType.code) rs none e taken (encodeTyped e t rs) := by
  rw [encodeTyped]
  cases headerOf t rs with
  | none => exact conforms_encodeRecords e rs
  | some rtype =>
    dsimp only [Option.map_some]
    cases hheader : encodeHeader e rtype.code with
    | mk outcome e' =>
      cases outcome with
      | ok =>
        obtain ⟨taken, hconforms⟩ := conforms_encodeRecords e' rs
        exact ⟨taken, hconforms.headed hheader⟩
      | error fault => exact ⟨0, conforms_refused hheader⟩

/-- The calls for a stream of a schema. -/
theorem conforms_encodeStreamOf (e : ε) (s : ς) (schema : Option Schema) :
    ∃ taken,
      Conforms (schema.map (·.rtype.code)) (RecordStream.takeAll s).1
        (RecordStream.fault? (RecordStream.takeAll s).2) e taken
        ((encodeStreamOf e s schema).1, (encodeStreamOf e s schema).2.1) ∧
      (encodeStreamOf e s schema).2.2 = advance s taken := by
  cases schema with
  | none => exact conforms_encodeStream e s
  | some schema =>
    rw [encodeStreamOf]
    dsimp only [Option.map_some]
    cases hheader : encodeHeader e schema.rtype.code with
    | mk outcome e' =>
      cases outcome with
      | ok =>
        obtain ⟨taken, hconforms, hstream⟩ := conforms_encodeStream e' s
        exact ⟨taken, hconforms.headed hheader, hstream⟩
      | error fault => exact ⟨0, conforms_refused hheader, rfl⟩

/-- **The calls for lists and streams, with headers and without.** Any encoder in any state is called
with the records of a list in order, up to the first that fails, and is flushed once behind all of
them. What is given back is what the first failure reports. A stream is encoded in the same way, is
asked for nothing behind a failure, and gives back its own fault in place of a flush if it ends
badly. A header comes ahead of all that, and nothing follows one that fails. So a stream that ends
well, as a list does, is encoded as the list of its records. -/
theorem batches_conform (e : ε) (t : RecordType) (rs : List Record) (s : ς)
    (schema : Option Schema) :
    let delivered := (RecordStream.takeAll s).1
    let ending := RecordStream.fault? (RecordStream.takeAll s).2
    let plain := encodeStream e s
    let headed := encodeStreamOf e s schema
    let listed := encodeStream e rs
    (∃ taken, Conforms none rs none e taken (encodeRecords e rs)) ∧
      (∃ taken, Conforms ((headerOf t rs).map RType.code) rs none e taken (encodeTyped e t rs)) ∧
      (∃ taken, Conforms none delivered ending e taken (plain.1, plain.2.1) ∧
        plain.2.2 = advance s taken) ∧
      (∃ taken, Conforms (schema.map (·.rtype.code)) delivered ending e taken
        (headed.1, headed.2.1) ∧ headed.2.2 = advance s taken) ∧
      (ending = none → (plain.1, plain.2.1) = encodeRecords e delivered) ∧
      (listed.1, listed.2.1) = encodeRecords e rs := by
  intro delivered ending plain headed listed
  refine ⟨conforms_encodeRecords e rs, conforms_encodeTyped e t rs, conforms_encodeStream e s,
    conforms_encodeStreamOf e s schema, encodeRecords_takeAll e, ?_⟩
  have hlisted := encodeRecords_takeAll (s := rs) e (by rw [takeAll_list]; rfl)
  rwa [takeAll_list] at hlisted

end Batches

end RecordEncoder

end MarketWire
