import MarketWire.Record.Header
import MarketWire.Record.Visits

/-!
# Records

A record as it lies in storage: its bytes begin with a header, and the header says how many of them
belong to the record. The layout is known only after the record type code has been looked up and
the size compared, so a record in storage is untyped, and an owned record is a copy made after both
checks.

Bytes past the end of the storage read as zero, which keeps every reader total; records that come
out of a stream are always complete.

## Main definitions

* `Record` — a record in storage.
* `Record.variant`, `Record.toOwned` — the checked layout and the typed copy.
* `Record.get` — the same for one expected layout, with the case that must not occur told apart.
* `Record.tsOut`, `Record.trailer?` — the send timestamp behind the layout, read with and without
  looking the code up first.
* `OwnedRecord`, `StampedRecord` — typed copies, without and with a send timestamp.
* `OwnedRecord.fields` — what is shown of a copy.
-/

namespace MarketWire

/-! ### Owned records -/

/-- A record of a known layout. -/
structure OwnedRecord where
  /-- The layout. -/
  type : RecordType
  /-- The bytes of the record. -/
  bytes : Bytes
  /-- The bytes fill the layout. -/
  length_bytes : bytes.length = type.size
  deriving DecidableEq

namespace OwnedRecord

/-- The record of the given layout at the front of a byte string. -/
def ofBytes (t : RecordType) (bs : Bytes) : OwnedRecord :=
  ⟨t, bs.window 0 t.size, Bytes.length_window ..⟩

/-- Where there is room for the layout, the record is what the byte string begins with. -/
theorem bytes_ofBytes {t : RecordType} {bs : Bytes} (h : t.size ≤ bs.length) :
    (ofBytes t bs).bytes = bs.take t.size := by
  change bs.window 0 t.size = bs.take t.size
  rw [Bytes.window_eq_take_drop (by omega), List.drop_zero]

/-- The header. -/
def header (r : OwnedRecord) : Header :=
  Header.ofBytes r.bytes

/-- The fields of the header. -/
def headerFields (r : OwnedRecord) : List Field :=
  Members.header.read Visit.header r.bytes

/-- The fields between the header and the book levels. -/
def ownFields (r : OwnedRecord) : List Field :=
  r.type.members.read r.type.visits (r.bytes.drop headerSize)

/-- The fields of each book level. -/
def levels (r : OwnedRecord) : List (List Field) :=
  (List.range r.type.depth).map fun level =>
    let start := headerSize + r.type.members.width + level * Members.bookLevel.width
    Members.bookLevel.read (Visit.bookLevel level) (r.bytes.drop start)

/-- The fields ahead of the book levels. -/
def flatFields (r : OwnedRecord) : List Field :=
  r.headerFields ++ r.ownFields

/-- The fields behind the header, the book levels included. -/
def bodyFields (r : OwnedRecord) : List Field :=
  r.ownFields ++ r.levels.flatten

/-- All fields. -/
def fields (r : OwnedRecord) : List Field :=
  r.headerFields ++ r.bodyFields

end OwnedRecord

/-- A record followed by the time at which it was sent. -/
structure StampedRecord where
  /-- The record, whose header covers the timestamp too. -/
  record : OwnedRecord
  /-- The time of sending in nanoseconds since 1970. -/
  tsOut : UInt64
  deriving DecidableEq

namespace StampedRecord

/-- Puts a send timestamp behind a record and counts it in the header. -/
def create (r : OwnedRecord) (tsOut : UInt64) : StampedRecord where
  record := ⟨r.type, r.bytes.set 0 (UInt8.ofNat ((r.type.size + 8) / lengthUnit)), by
    simpa using r.length_bytes⟩
  tsOut := tsOut

/-- The bytes of the record and of the timestamp. -/
def toBytes (s : StampedRecord) : Bytes :=
  s.record.bytes ++ LittleEndian.encode 8 s.tsOut.toNat

/-- The fields of the record and the timestamp. -/
def fields (s : StampedRecord) : List Field :=
  s.record.fields ++ [.tsOut s.tsOut]

theorem length_toBytes (s : StampedRecord) : s.toBytes.length = s.record.type.size + 8 := by
  simp [toBytes, s.record.length_bytes]

end StampedRecord

/-! ### Records in storage -/

/-- A record in storage. -/
structure Record where
  /-- The storage from the first byte of the record on. -/
  storage : Bytes
  deriving DecidableEq, Repr

/-- What a look at a record with one layout in mind finds. -/
inductive Lookup
  /-- The record has another type. -/
  | otherType
  /-- The record has the type and room for its layout. -/
  | found (record : OwnedRecord)
  /-- The record has the type, and the header announces fewer bytes than the layout has. -/
  | malformed
  deriving DecidableEq

namespace Record

/-- The header. -/
def header (r : Record) : Header :=
  Header.ofBytes r.storage

/-- The size that the header announces. -/
def size (r : Record) : Nat :=
  r.header.recordSize

/-- As many bytes as the header announces. -/
def bytes (r : Record) : Bytes :=
  r.storage.window 0 r.size

/-- The catalog entry of the record type code. -/
def rtype (r : Record) : Except Fault RType :=
  r.header.rtypeEntry

/-- Whether the record type code designates the given layout. -/
def has (r : Record) (t : RecordType) : Bool :=
  t.accepts r.header.rtype

/-- A record with the given code and the least size for it, zero elsewhere. -/
def zeroed (code : UInt8) : Record :=
  let size := RType.minSizeOfCode code
  ⟨UInt8.ofNat (size / lengthUnit) :: code :: List.replicate (size - 2) 0⟩

/-- The layout of the record, once its code is found in the catalog and its size suffices. -/
def variant (r : Record) : Except Fault RecordType := do
  let entry ← r.rtype
  let t := entry.recordType
  if r.size < t.size then
    .error (.undersizedRecord r.header.rtype r.size t.size)
  else
    .ok t

/-- A typed copy of the record. -/
def toOwned (r : Record) : Except Fault OwnedRecord := do
  let t ← r.variant
  .ok (.ofBytes t r.storage)

/-- The record as one of the given layout. -/
def get (r : Record) (t : RecordType) : Lookup :=
  if r.has t then
    if r.size < t.size then .malformed else .found (.ofBytes t r.storage)
  else
    .otherType

/-- The line that describes a record too short for its type before a program gives up on it. -/
def malformedNotice (r : Record) (expected : Nat) : Text :=
  Text.ofAscii "malformed DBN record: rtype 0x" ++ Text.hexByte r.header.rtype ++
    Text.ofAscii " has length " ++ Text.decimal r.size ++
    Text.ofAscii " bytes, expected at least " ++ Text.decimal expected ++ [0x0A]

/-- The send timestamp behind the layout of the record. -/
def tsOut (r : Record) : Except Fault UInt64 := do
  let entry ← r.rtype
  let offset := entry.minSize
  if r.size < offset + 8 then
    .error (.missingTsOut r.size)
  else
    .ok (UInt64.ofNat (LittleEndian.decode (r.storage.window offset 8)))

/-- The eight bytes behind the least size for the code as a send timestamp, if the header counts
them. The code is not judged: outside the catalog the least size is that of the header. -/
def trailer? (r : Record) : Option UInt64 :=
  let offset := RType.minSizeOfCode r.header.rtype
  if offset + 8 ≤ r.size then
    some (UInt64.ofNat (LittleEndian.decode (r.storage.window offset 8)))
  else
    none

/-- The two ways of reading the send timestamp differ for a code outside the catalog, once the record
has room for a timestamp behind its header. -/
theorem trailer?_eq_toOption_tsOut_iff (r : Record) :
    r.trailer? = r.tsOut.toOption ↔
      (∃ entry, r.rtype = .ok entry) ∨ r.size < headerSize + 8 := by
  rw [trailer?, tsOut, rtype, Header.rtypeEntry, RType.minSizeOfCode]
  cases RType.ofCode? r.header.rtype with
  | some entry =>
    have hsame : ∀ time : UInt64,
        (if entry.minSize + 8 ≤ r.size then some time else none) =
          Except.toOption (if r.size < entry.minSize + 8 then
            .error (.missingTsOut r.size) else (.ok time : Except Fault UInt64)) := by
      intro time
      by_cases hroom : entry.minSize + 8 ≤ r.size
      · rw [if_pos hroom, if_neg (Nat.not_lt.mpr hroom)]
        rfl
      · rw [if_neg hroom, if_pos (Nat.not_le.mp hroom)]
        rfl
    exact ⟨fun _ => .inl ⟨entry, rfl⟩, fun _ => hsame _⟩
  | none =>
    dsimp only
    by_cases hroom : headerSize + 8 ≤ r.size
    · rw [if_pos hroom]
      constructor
      · nofun
      · rintro (⟨entry, hentry⟩ | hshort)
        · cases hentry
        · omega
    · rw [if_neg hroom]
      exact ⟨fun _ => .inr (Nat.not_le.mp hroom), fun _ => rfl⟩

/-- The fault of a batch that stopped at this record. -/
def blame (r : Record) (cause : Fault) : Fault :=
  let h := r.header
  .inRecord h.rtype h.publisherId h.productId h.tsEvent cause

end Record

end MarketWire
