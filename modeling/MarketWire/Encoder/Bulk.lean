import MarketWire.Encoder.Basic
import MarketWire.RecordStream.Basic
import MarketWire.Schema

/-!
# Encoding many records

Records are encoded in order until one fails. Somebody who no longer listens is no fault: when the
sink turns out to be closed, encoding stops and has succeeded. Every other fault is given back with
the record or header that met it. When all records are through, the encoder is flushed, once.

## Main definitions

* `RecordEncoder.encodeRecords` — encodes a list.
* `RecordEncoder.encodeTyped` — encodes a list of one type behind the header of that type.
* `RecordEncoder.encodeStream` — encodes a stream, and takes no record after one that failed.
* `RecordEncoder.encodeStreamOf` — the same behind the header of the stream's schema.
-/

namespace MarketWire

namespace RecordEncoder

variable {ε ς : Type} [RecordEncoder ε] [RecordStream ς]

/-! ### Stopping -/

/-- A closed sink counts as success; any other fault is put as `blame` says. -/
def forgiveClosed (blame : Fault → Fault) : Outcome → Outcome
  | .ok () => .ok ()
  | .error fault => if fault.kind = .sinkClosed then .ok () else .error (blame fault)

/-- Flushes at the end of a batch. -/
def finish (e : ε) : Outcome × ε :=
  let (outcome, e) := flush e
  (forgiveClosed id outcome, e)

/-! ### Batches -/

/-- Encodes the records of a list. -/
def encodeRecords (e : ε) : List Record → Outcome × ε
  | [] => finish e
  | r :: rs =>
    match encodeRecord e r with
    | (.ok (), e) => encodeRecords e rs
    | (.error fault, e) => (forgiveClosed r.blame (.error fault), e)

/-- The code of the header for a list of records of one type: that of the first record if it is in
the catalog, and the lowest one of the type if there are no records. -/
def headerOf (t : RecordType) : List Record → Option RType
  | [] => t.leadingRType?
  | r :: _ => RType.ofCode? r.header.rtype

/-- Encodes records of one type behind its header, which is written even if there are none. -/
def encodeTyped (e : ε) (t : RecordType) (rs : List Record) : Outcome × ε :=
  match headerOf t rs with
  | none => encodeRecords e rs
  | some rtype =>
    match encodeHeader e rtype.code with
    | (.ok (), e) => encodeRecords e rs
    | (.error fault, e) => (forgiveClosed (.inHeader rtype.code) (.error fault), e)

/-- Encodes the records of a stream, and gives back what is left of it. -/
def encodeStream (e : ε) (s : ς) : Outcome × ε × ς :=
  match _h : (RecordStream.next s).1 with
  | some r =>
    match encodeRecord e r with
    | (.ok (), e) => encodeStream e (RecordStream.next s).2
    | (.error fault, e) => (forgiveClosed r.blame (.error fault), e, (RecordStream.next s).2)
  | none =>
    let s := (RecordStream.next s).2
    match RecordStream.fault? s with
    | some fault => (.error fault, e, s)
    | none =>
      let (outcome, e) := finish e
      (outcome, e, s)
termination_by RecordStream.rank s
decreasing_by exact RecordStream.rank_next s r _h

/-- Encodes the records of a stream of the given schema behind its header. A mix has none. -/
def encodeStreamOf (e : ε) (s : ς) (schema : Option Schema) : Outcome × ε × ς :=
  match schema with
  | none => encodeStream e s
  | some schema =>
    let code := schema.rtype.code
    match encodeHeader e code with
    | (.ok (), e) => encodeStream e s
    | (.error fault, e) => (forgiveClosed (.inHeader code) (.error fault), e, s)

end RecordEncoder

end MarketWire
