import MarketWire.Proofs.DecoderFraming
import MarketWire.Proofs.DecoderRuns
import MarketWire.Proofs.EncoderRuns

/-!
# Streams with send timestamps

A sender may put the time of sending behind every record. The writer puts it behind the bytes of the
layout, the reader looks for it behind the least size of the record type code, and only where the
header announces that much. The two meet since a layout accepts exactly those codes whose least size
is its own, and since the header of a stamped record is made to count the timestamp: nothing else
about the record is changed, and so the records behind it stay where a decoder looks for them.

What comes out is compared with what was given and not with what the writer made of it: a writer that
stored another time, or another record, would come out of its stream just as well.

## Main definitions

* `OwnedRecord.Restamped` — when a record is another one with a longer length in its header.
* `Product.Carries` — when what a decoder hands over is a given record, sent at a given time.

## Main results

* `StampedRecord.restamped_iff` — a send timestamp changes the length and nothing else.
* `StampedRecord.isFrame_toBytes` — a stamped record is a frame, whatever the code it has.
* `Decoder.run_carries_stamped` — **stamped records come out as they were sent**.
-/

namespace MarketWire

/-! ### Putting a timestamp behind a record -/

/-- The header of `s` counts eight bytes more than the layout has, and all else is as in `r`. -/
structure OwnedRecord.Restamped (r s : OwnedRecord) : Prop where
  /-- The layout is the same. -/
  type_eq : s.type = r.type
  /-- The header counts the layout and eight bytes more. -/
  length_eq : lengthUnit * s.header.length.toNat = r.type.size + 8
  /-- All that the header says besides is the same. -/
  header_eq : s.header = { r.header with length := s.header.length }
  /-- All bytes behind the length are the same. -/
  drop_eq : s.bytes.drop 1 = r.bytes.drop 1

/-- There is one such record at most: its first byte is the length, and the others are given. -/
theorem OwnedRecord.Restamped.unique {r s s' : OwnedRecord} (h : r.Restamped s)
    (h' : r.Restamped s') : s = s' := by
  have hlength : s.header.length = s'.header.length := by
    have hunits := h.length_eq.trans h'.length_eq.symm
    exact UInt8.toNat_inj.mp (Nat.eq_of_mul_eq_mul_left (by decide) hunits)
  have hrest : s.bytes.drop 1 = s'.bytes.drop 1 := h.drop_eq.trans h'.drop_eq.symm
  have hroom : 0 < s.bytes.length ∧ 0 < s'.bytes.length := by
    have hs := s.type.headerSize_le_size
    have hs' := s'.type.headerSize_le_size
    rw [headerSize, ← length_bytes] at hs hs'
    omega
  obtain ⟨type, bytes, hbytes⟩ := s
  obtain ⟨type', bytes', hbytes'⟩ := s'
  obtain rfl : type = type' := h.type_eq.trans h'.type_eq.symm
  congr 1
  cases bytes with
  | nil => exact absurd hroom.1 (Nat.lt_irrefl _)
  | cons first rest =>
    cases bytes' with
    | nil => exact absurd hroom.2 (Nat.lt_irrefl _)
    | cons first' rest' => exact congrArg₂ List.cons hlength hrest

/-- The length stands by itself in the first byte. -/
theorem Header.ofBytes_set (bs : Bytes) (hlength : 0 < bs.length) (length : UInt8) :
    Header.ofBytes (bs.set 0 length) = { Header.ofBytes bs with length := length } := by
  cases bs with
  | nil => cases hlength
  | cons first rest => simp [ofBytes, Bytes.window]

namespace StampedRecord

variable (r : OwnedRecord) (tsOut : UInt64)

theorem header_create :
    (create r tsOut).record.header =
      { r.header with length := UInt8.ofNat ((r.type.size + 8) / lengthUnit) } := by
  have hroom := r.type.headerSize_le_size
  have hlength := r.length_bytes
  rw [headerSize] at hroom
  exact Header.ofBytes_set r.bytes (by omega) _

/-- The header of a stamped record counts the timestamp. -/
theorem recordSize_create : (create r tsOut).record.header.recordSize = r.type.size + 8 := by
  obtain ⟨hunits, hbyte⟩ := r.type.size_eq_lengthUnit_mul
  rw [header_create, Header.recordSize]
  rw [lengthUnit] at hunits hbyte ⊢
  rw [UInt8.toNat_ofNat_of_lt' hbyte]
  omega

/-- **A send timestamp changes the length in the header and nothing else.** -/
theorem restamped_create : r.Restamped (create r tsOut).record := by
  constructor
  case type_eq => rfl
  case length_eq => exact recordSize_create r tsOut
  case header_eq => rw [header_create]
  case drop_eq =>
    show (r.bytes.set 0 _).drop 1 = r.bytes.drop 1
    cases r.bytes <;> rfl

/-- No other record is. -/
theorem restamped_iff {s : OwnedRecord} : r.Restamped s ↔ s = (create r tsOut).record :=
  ⟨fun h => h.unique (restamped_create r tsOut), fun h => h ▸ restamped_create r tsOut⟩

/-- The header is that of the record. -/
theorem header_toBytes (s : StampedRecord) : Header.ofBytes s.toBytes = s.record.header := by
  refine Header.ofBytes_append ?_ _
  rw [s.record.length_bytes]
  exact s.record.type.headerSize_le_size

/-- At the front lies the record. -/
theorem ofBytes_toBytes (s : StampedRecord) :
    OwnedRecord.ofBytes s.record.type s.toBytes = s.record := by
  have hfront : (OwnedRecord.ofBytes s.record.type s.toBytes).bytes = s.record.bytes := by
    rw [OwnedRecord.bytes_ofBytes (by rw [length_toBytes]; omega), toBytes,
      ← s.record.length_bytes, List.take_left]
  rw [OwnedRecord.ofBytes, OwnedRecord.mk.injEq]
  exact ⟨rfl, hfront⟩

/-- Behind the layout lies the timestamp. -/
theorem window_toBytes (s : StampedRecord) :
    s.toBytes.window s.record.type.size 8 = LittleEndian.encode 8 s.tsOut.toNat := by
  rw [Bytes.window_eq_take_drop (Nat.le_of_eq (length_toBytes s).symm), toBytes,
    ← s.record.length_bytes, List.drop_left]
  exact List.take_of_length_le (by simp)

variable {r}

/-- A layout accepts a code if its size is the least for that code. -/
theorem exists_entry_of_accepts (h : r.type.accepts r.header.rtype = true) :
    ∃ entry, RType.ofCode? (Header.ofBytes (create r tsOut).toBytes).rtype = some entry ∧
      entry.recordType = r.type := by
  rw [header_toBytes, header_create]
  exact RecordType.accepts_iff.mp h

/-- **A stamped record is a frame**, whichever of the codes of its layout it has. -/
theorem isFrame_toBytes (h : r.type.accepts r.header.rtype = true) :
    IsFrame (create r tsOut).toBytes := by
  obtain ⟨entry, hentry, htype⟩ := exists_entry_of_accepts tsOut h
  have hlength : (create r tsOut).toBytes.length = r.type.size + 8 := length_toBytes _
  have hroom := r.type.headerSize_le_size
  constructor
  case length_eq => rw [hlength, header_toBytes, recordSize_create]
  case headerSize_le => omega
  case minSize_le =>
    rw [RType.minSizeOfCode, hentry, hlength]
    show entry.minSize ≤ r.type.size + 8
    rw [RType.minSize_eq, htype]
    omega

theorem isKnown_toBytes (h : r.type.accepts r.header.rtype = true) :
    isKnown (create r tsOut).toBytes = true := by
  obtain ⟨entry, hentry, -⟩ := exists_entry_of_accepts tsOut h
  rw [isKnown, hentry]
  rfl

/-- The typed copy of a stamped record is the record without the timestamp. -/
theorem toOwned_toBytes (h : r.type.accepts r.header.rtype = true) :
    (Record.mk (create r tsOut).toBytes).toOwned = .ok (create r tsOut).record := by
  obtain ⟨entry, hentry, htype⟩ := exists_entry_of_accepts tsOut h
  rw [Record.toOwned_of_isFrame (r := ⟨(create r tsOut).toBytes⟩) (isFrame_toBytes tsOut h) hentry,
    htype]
  exact congrArg Except.ok (ofBytes_toBytes (create r tsOut))

/-- The timestamp is found behind the layout that the code designates. -/
theorem tsOut_toBytes (h : r.type.accepts r.header.rtype = true) :
    (Record.mk (create r tsOut).toBytes).tsOut = .ok tsOut := by
  obtain ⟨entry, hentry, htype⟩ := exists_entry_of_accepts tsOut h
  have hrtype : (Record.mk (create r tsOut).toBytes).rtype = .ok entry := by
    rw [Record.rtype, Header.rtypeEntry, Record.header, hentry]
  have hsize : (Record.mk (create r tsOut).toBytes).size = r.type.size + 8 := by
    rw [Record.size, Record.header, header_toBytes, recordSize_create]
  have hnumber : UInt64.ofNat (LittleEndian.decode (LittleEndian.encode 8 tsOut.toNat)) = tsOut := by
    rw [LittleEndian.decode_encode, show LittleEndian.modulus 8 = 2 ^ 64 from rfl,
      Nat.mod_eq_of_lt tsOut.toNat_lt, UInt64.ofNat_toNat]
  have hwindow : (create r tsOut).toBytes.window r.type.size 8 =
      LittleEndian.encode 8 tsOut.toNat := window_toBytes (create r tsOut)
  rw [Record.tsOut, hrtype]
  show (if (Record.mk (create r tsOut).toBytes).size < entry.minSize + 8 then _ else
    Except.ok (UInt64.ofNat (LittleEndian.decode
      ((create r tsOut).toBytes.window entry.minSize 8)))) = _
  rw [RType.minSize_eq, htype, hsize, if_neg (Nat.lt_irrefl _), hwindow, hnumber]

end StampedRecord

/-! ### What a decoder hands over -/

/-- What is handed over is the given record up to the length in its header, and the given time. -/
inductive Product.Carries (r : OwnedRecord) (sentAt : UInt64) : Product → Prop
  /-- As an owned copy, which has the time beside it. -/
  | owned {decoded : DecodedRecord} (record : r.Restamped decoded.record)
    (tsOut : decoded.tsOut = some sentAt) : Carries r sentAt (.owned decoded)
  /-- As a view, behind whose layout lies the time, where it can be read. -/
  | view {view : View} {copy : OwnedRecord} (toOwned : view.record.toOwned = .ok copy)
    (record : r.Restamped copy)
    (bytes : view.record.bytes = copy.bytes ++ LittleEndian.encode 8 sentAt.toNat)
    (tsOut : view.record.tsOut = .ok sentAt) : Carries r sentAt (.view view)

/-- Records with their times of sending, in the order of sending. -/
abbrev Sent := List (OwnedRecord × UInt64)

namespace Sent

/-- The stamped records. -/
def stamped (sent : Sent) : List StampedRecord :=
  sent.map fun p => .create p.1 p.2

/-- The bytes of the stamped records. -/
def toBytes (sent : Sent) : Bytes :=
  (sent.stamped.map StampedRecord.toBytes).flatten

/-- Every record has a code that its layout accepts. -/
def IsAccepted (sent : Sent) : Prop :=
  ∀ p ∈ sent, p.1.type.accepts p.1.header.rtype = true

variable {sent : Sent}

/-- The stamped records are frames with a code of the catalog. -/
theorem isFrame_of_mem (h : sent.IsAccepted) :
    ∀ frame ∈ sent.stamped.map StampedRecord.toBytes, IsFrame frame ∧ isKnown frame = true := by
  intro frame hframe
  simp only [stamped, List.map_map, List.mem_map, Function.comp_apply] at hframe
  obtain ⟨p, hp, rfl⟩ := hframe
  exact ⟨StampedRecord.isFrame_toBytes p.2 (h p hp), StampedRecord.isKnown_toBytes p.2 (h p hp)⟩

/-- None of the stamped records is passed over. -/
theorem knownRecords_eq (h : sent.IsAccepted) :
    knownRecords (sent.stamped.map StampedRecord.toBytes) =
      sent.stamped.map fun s => ⟨s.toBytes⟩ := by
  rw [knownRecords, List.filter_eq_self.mpr fun frame hframe => (isFrame_of_mem h frame hframe).2,
    List.map_map]
  rfl

end Sent

/-- Where all frames have a code of the catalog there is nothing to report. -/
theorem skipped_eq_nil {frames : List Bytes} (h : ∀ frame ∈ frames, isKnown frame = true)
    (offset : Nat) : skipped offset frames = [] := by
  induction frames generalizing offset with
  | nil => rfl
  | cons frame frames ih =>
    rw [skipped, if_pos (h frame List.mem_cons_self)]
    exact ih (fun g hg => h g (List.mem_cons_of_mem _ hg)) _

/-- A stamped record is carried by every form in which it is handed over. -/
theorem Delivery.IsShown.carries {metadata : Metadata} (hts : metadata.tsOut = true)
    {r : OwnedRecord} {tsOut : UInt64} (h : r.type.accepts r.header.rtype = true) {p : Product}
    (hshown : (Delivery.of metadata ⟨(StampedRecord.create r tsOut).toBytes⟩).IsShown p) :
    p.Carries r tsOut := by
  have hcopy := StampedRecord.toOwned_toBytes tsOut h
  have htime := StampedRecord.tsOut_toBytes tsOut h
  have hrestamped := StampedRecord.restamped_create r tsOut
  cases hshown with
  | owned howned =>
    constructor
    case record => rwa [Except.ok.inj (howned.record.symm.trans hcopy)]
    case tsOut =>
      rw [howned.tsOut, Delivery.of, if_pos hts]
      dsimp only
      rw [htime]
      rfl
  | view hview =>
    have hrecord : _ = Record.mk (StampedRecord.create r tsOut).toBytes := hview.record
    refine .view (by rw [hrecord, hcopy]) hrestamped ?bytes ?tsOut
    case bytes =>
      rw [hrecord, (StampedRecord.isFrame_toBytes tsOut h).bytes_eq]
      rfl
    case tsOut => rw [hrecord, htime]

namespace Decoder

/-- **Stamped records come out as they were sent.** A stream of metadata that announces send timestamps
and of stamped records of any types, cut into pieces and called for in any way, gives the metadata
in its normal form and then the records in the order of sending, each with its timestamp beside the
copy or behind the view. Nothing is reported, nothing is left over, and of every record only the
length in the header is not what was sent. -/
theorem run_carries_stamped {m : Metadata} (hlisted : m.HasListedCodes) (hts : m.tsOut = true)
    {block : Bytes} (hblock : m.encode = .ok block) {sent : Sent} (hsent : sent.IsAccepted)
    {commands : List Command} (hwritten : written commands = block ++ sent.toBytes)
    (last : CallKind) :
    let run := fresh.run (commands ++ [.call last])
    List.Forall₂ (fun p product => product.Carries p.1 p.2) sent run.1.products ∧
      (∀ p ∈ sent, ∀ r, p.1.Restamped r ↔ r = (StampedRecord.create p.1 p.2).record) ∧
      run.1.problems = [] ∧ run.1.outcome = some (.ok ()) ∧
      run.2.metadata? = some m.normalize ∧
      run.2.consumed = (block ++ sent.toBytes).length ∧ run.2.unread = [] := by
  intro run
  have htells : Tells _ run := tells_run .fresh commands last
  have hframes := Sent.isFrame_of_mem hsent
  have hsegment := segment_row (fun frame hframe => (hframes frame hframe).1) block.length
  have hwhole := whole_append (Metadata.atFront_of_encode hlisted hblock) sent.toBytes
  rw [standing_fresh, ← Standing.whole, hwritten, hwhole, Standing.stream, Sent.toBytes,
    hsegment] at htells
  obtain ⟨hproducts, hproblems, houtcome, hstanding⟩ := htells
  refine ⟨?products, fun p _ _ => StampedRecord.restamped_iff p.1 p.2, ?problems, houtcome,
    ?announced, ?consumed, congrArg Standing.unread hstanding⟩
  case products =>
    rw [Sent.knownRecords_eq hsent, Sent.stamped] at hproducts
    simp only [List.forall₂_map_left_iff] at hproducts
    exact ((List.forall₂_and_left sent _).mpr ⟨hsent, hproducts⟩).imp
      fun p product h => h.2.carries hts h.1
  case problems =>
    rw [hproblems]
    exact skipped_eq_nil (fun frame hframe => (hframes frame hframe).2) _
  case announced =>
    have hphase : run.2.phase = .streaming m.normalize := congrArg Standing.phase hstanding
    rw [metadata?, hphase]
    rfl
  case consumed =>
    rw [List.length_append, Sent.toBytes]
    exact congrArg Standing.consumed hstanding

/-- A bar with a length that is not its own. -/
def exampleBar : OwnedRecord :=
  .ofBytes .ohlcv ([9, 0x20] ++ List.replicate 54 7)

/-- A trade that comes with the lowest code. -/
def exampleTrade : OwnedRecord :=
  .ofBytes .trade ([12, 0x00] ++ List.replicate 46 1)

/-- One record sent at the latest time there is, and one at the earliest. -/
def exampleSent : Sent :=
  [(exampleBar, 0xFFFFFFFFFFFFFFFF), (exampleTrade, 0)]

/-- The stream comes in three pieces, the second of which ends behind the first timestamp and in the
middle of the second record. -/
def exampleCommands (block : Bytes) : List Command :=
  [.write block, .call .views, .write (exampleSent.toBytes.take 70), .call .owned,
    .write (exampleSent.toBytes.drop 70)]

theorem run_carries_stamped_exampleSent :
    let m : Metadata := { tsOut := true }
    m.HasListedCodes ∧ m.tsOut = true ∧ exampleSent.IsAccepted ∧
      ∃ block, m.encode = .ok block ∧
        written (exampleCommands block) = block ++ exampleSent.toBytes ∧
        ∃ first second,
          (fresh.run (exampleCommands block ++ [.call .views])).1.products = [first, second] ∧
          first.Carries exampleBar 0xFFFFFFFFFFFFFFFF ∧ second.Carries exampleTrade 0 := by
  intro m
  have hlisted : m.HasListedCodes := ⟨nofun, by decide, by decide⟩
  have hsent : exampleSent.IsAccepted := by
    simp only [Sent.IsAccepted, exampleSent, List.forall_mem_cons, List.not_mem_nil, false_implies,
      implies_true, and_true]
    decide +kernel
  obtain ⟨block, hblock⟩ : ∃ block, m.encode = .ok block := ⟨_, rfl⟩
  have hwritten : written (exampleCommands block) = block ++ exampleSent.toBytes := by
    simp [exampleCommands, written]
  obtain ⟨hproducts, -⟩ := run_carries_stamped hlisted rfl hblock hsent hwritten .views
  obtain ⟨first, _, hfirst, hbehind, hrow⟩ := List.forall₂_cons_left_iff.mp hproducts
  obtain ⟨second, _, hsecond, hnone, rfl⟩ := List.forall₂_cons_left_iff.mp hbehind
  cases List.forall₂_nil_left_iff.mp hnone
  exact ⟨hlisted, rfl, hsent, block, hblock, hwritten, first, second, hrow, hfirst, hsecond⟩

end Decoder

end MarketWire
