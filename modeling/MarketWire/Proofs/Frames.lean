import MarketWire.Decoder.Framer

/-!
# Frames

Behind the metadata a stream is a row of frames. A frame is a byte string whose header announces
exactly its length, and enough for the header itself and for the type that it names. Whether a byte
string begins with a frame is decided by its first bytes alone, so a byte string is cut into frames
in one way only: `segment` cuts off one frame after another and stops at the first place where no
frame begins.

Bytes that arrive later do not change what has been cut off. That is `segment_append`, and it is
all that the independence of a decoder from the pieces it is fed with comes down to.

## Main definitions

* `IsFrame` — byte strings that are one complete record.
* `segment` — the frames at the front of a byte string, and what stops them.
* `knownRecords`, `skipped` — the frames whose code is in the catalog, and the reports on the others.
* `Record.isListed` — whether the code of a record is in the catalog.

## Main results

* `size?_ofBytes_eq_some_iff` — a front has a size when a frame begins there.
* `segment_flatten` — frames in front of a byte string are cut off one by one.
* `eq_of_flatten_eq` — a byte string is a row of frames in one way at most.
* `Record.isFrame_bytes` — a record whose header is in order is a frame.
* `Record.toOwned_of_isFrame`, `Record.tsOut_of_isFrame` — what a frame is copied to, and where its
  send timestamp lies.
-/

namespace MarketWire

/-! ### Frames -/

/-- A header is in order if it announces enough for itself and for the type that it names. -/
structure Header.Acceptable (header : Header) : Prop where
  /-- There is room for the header. -/
  headerSize_le : headerSize ≤ header.recordSize
  /-- There is room for the type that the header names. -/
  minSize_le : RType.minSizeOfCode header.rtype ≤ header.recordSize

instance (header : Header) : Decidable header.Acceptable :=
  decidable_of_iff
    (headerSize ≤ header.recordSize ∧ RType.minSizeOfCode header.rtype ≤ header.recordSize)
    ⟨fun h => ⟨h.1, h.2⟩, fun h => ⟨h.1, h.2⟩⟩

theorem Header.not_acceptable_iff {header : Header} :
    ¬header.Acceptable ↔ header.recordSize < headerSize ∨
      header.recordSize < RType.minSizeOfCode header.rtype := by
  constructor
  · intro h
    by_cases hshort : header.recordSize < headerSize
    · exact .inl hshort
    · exact .inr (Nat.lt_of_not_le fun hmin => h ⟨Nat.not_lt.mp hshort, hmin⟩)
  · rintro h ⟨hheader, hmin⟩
    omega

/-- A byte string that is one complete record. -/
structure IsFrame (bs : Bytes) : Prop where
  /-- The header announces the length. -/
  length_eq : bs.length = (Header.ofBytes bs).recordSize
  /-- There is room for the header. -/
  headerSize_le : headerSize ≤ bs.length
  /-- There is room for the type that the header names. -/
  minSize_le : RType.minSizeOfCode (Header.ofBytes bs).rtype ≤ bs.length

/-- Where a frame begins, the header is there, is in order, and announces the size. -/
theorem isFrame_take_iff {bs : Bytes} {size : Nat} (hsize : size ≤ bs.length) :
    IsFrame (bs.take size) ↔ headerSize ≤ bs.length ∧ (Header.ofBytes bs).Acceptable ∧
      (Header.ofBytes bs).recordSize = size := by
  have hlength := List.length_take_of_le hsize
  constructor
  · rintro ⟨heq, hroom, hmin⟩
    rw [hlength] at hroom
    rw [hlength, Header.ofBytes_take hroom hsize] at heq hmin
    exact ⟨by omega, ⟨by omega, by omega⟩, heq.symm⟩
  · rintro ⟨-, hacc, rfl⟩
    have hheader := Header.ofBytes_take hacc.headerSize_le hsize
    constructor
    · rw [hlength, hheader]
    · rw [hlength]
      exact hacc.headerSize_le
    · rw [hlength, hheader]
      exact hacc.minSize_le

/-- Whether the code of a record is in the catalog. -/
def isKnown (bs : Bytes) : Bool :=
  (RType.ofCode? (Header.ofBytes bs).rtype).isSome

/-- The records among frames. -/
def knownRecords (frames : List Bytes) : List Record :=
  (frames.filter isKnown).map Record.mk

/-- The reports on the frames that are passed over, the first frame lying at `offset`. -/
def skipped (offset : Nat) : List Bytes → List Fault
  | [] => []
  | frame :: frames =>
    if isKnown frame then
      skipped (offset + frame.length) frames
    else
      .skippedRecord frame.length (Header.ofBytes frame).rtype offset ::
        skipped (offset + frame.length) frames

theorem knownRecords_append (frames more : List Bytes) :
    knownRecords (frames ++ more) = knownRecords frames ++ knownRecords more := by
  simp [knownRecords]

theorem skipped_append (offset : Nat) (frames more : List Bytes) :
    skipped offset (frames ++ more) =
      skipped offset frames ++ skipped (offset + frames.flatten.length) more := by
  induction frames generalizing offset with
  | nil => simp [skipped]
  | cons frame frames ih =>
    rw [List.cons_append, skipped, skipped, ih, List.flatten_cons, List.length_append,
      Nat.add_assoc]
    split <;> rfl

/-! ### Fronts -/

namespace Front

/-- The size of the frame at the front, if there is one. -/
def size? : Front → Option Nat
  | .incomplete => none
  | .malformed _ => none
  | .unknown size _ => some size
  | .record size => some size

/-- How decoding ends at a front without a frame. -/
def outcome : Front → Outcome
  | .malformed fault => .error fault
  | _ => .ok ()

/-- What stands at the front of a byte string that lies at `offset` in the stream. -/
def ofBytes (offset : Nat) (bs : Bytes) : Front :=
  if bs.length < headerSize then .incomplete
  else .ofHeader offset bs.length (Header.ofBytes bs)

/-- What a header that is not in order is blamed for. -/
def complaint (offset : Nat) (header : Header) : Fault :=
  if header.recordSize < headerSize then
    .undersizedHeader offset header.recordSize
  else
    .undersizedFrame header.rtype offset header.recordSize (RType.minSizeOfCode header.rtype)

/-- The header is judged first, and then whether all of the record is there. -/
theorem ofHeader_eq (offset available : Nat) (header : Header) :
    ofHeader offset available header =
      if header.Acceptable then
        if available < header.recordSize then .incomplete
        else if (RType.ofCode? header.rtype).isSome then .record header.recordSize
        else .unknown header.recordSize header.rtype
      else
        .malformed (complaint offset header) := by
  by_cases hshort : header.recordSize < headerSize
  · have hnot : ¬header.Acceptable := fun h => Nat.not_le.mpr hshort h.headerSize_le
    simp [ofHeader, complaint, hshort, hnot]
  · cases hcode : RType.ofCode? header.rtype with
    | none =>
      have hmin : RType.minSizeOfCode header.rtype = headerSize := by
        simp [RType.minSizeOfCode, hcode]
      have hacc : header.Acceptable := ⟨by omega, by omega⟩
      simp [ofHeader, hshort, hcode, hacc]
    | some entry =>
      have hmin : RType.minSizeOfCode header.rtype = entry.minSize := by
        simp [RType.minSizeOfCode, hcode]
      by_cases hsmall : header.recordSize < entry.minSize
      · have hnot : ¬header.Acceptable := fun h => by have := h.minSize_le; omega
        simp [ofHeader, complaint, hshort, hcode, hsmall, hmin, hnot]
      · have hacc : header.Acceptable := ⟨by omega, by omega⟩
        simp [ofHeader, hshort, hcode, hsmall, hacc]

/-- A front has a size exactly when a frame of that size begins there. -/
theorem size?_ofBytes_eq_some_iff {offset size : Nat} {bs : Bytes} :
    (ofBytes offset bs).size? = some size ↔ size ≤ bs.length ∧ IsFrame (bs.take size) := by
  constructor
  · intro h
    rw [ofBytes] at h
    split at h
    · simp [size?] at h
    · rename_i hlen
      rw [ofHeader_eq] at h
      split at h
      · rename_i hacc
        split at h
        · simp [size?] at h
        · rename_i hroom
          have hsize : (Header.ofBytes bs).recordSize = size := by
            split at h <;> exact Option.some.inj h
          have hle : size ≤ bs.length := by omega
          exact ⟨hle, (isFrame_take_iff hle).mpr ⟨by omega, hacc, hsize⟩⟩
      · simp [size?] at h
  · rintro ⟨hle, hframe⟩
    obtain ⟨hlen, hacc, rfl⟩ := (isFrame_take_iff hle).mp hframe
    rw [ofBytes, if_neg (Nat.not_lt.mpr hlen), ofHeader_eq, if_pos hacc,
      if_neg (Nat.not_lt.mpr hle)]
    split <;> rfl

/-- Whether a frame begins does not depend on the place in the stream. -/
theorem size?_ofBytes_congr (offset offset' : Nat) (bs : Bytes) :
    (ofBytes offset bs).size? = (ofBytes offset' bs).size? := by
  ext size
  rw [size?_ofBytes_eq_some_iff, size?_ofBytes_eq_some_iff]

/-- A front with a size is that of a record of the catalog or of one to be passed over. -/
theorem ofBytes_of_size? {offset size : Nat} {bs : Bytes}
    (h : (ofBytes offset bs).size? = some size) :
    ofBytes offset bs =
      if isKnown (bs.take size) then .record size
      else .unknown size (Header.ofBytes (bs.take size)).rtype := by
  obtain ⟨hle, hframe⟩ := size?_ofBytes_eq_some_iff.mp h
  obtain ⟨hlen, hacc, rfl⟩ := (isFrame_take_iff hle).mp hframe
  rw [isKnown, Header.ofBytes_take hacc.headerSize_le hle, ofBytes,
    if_neg (Nat.not_lt.mpr hlen), ofHeader_eq, if_pos hacc, if_neg (Nat.not_lt.mpr hle)]

/-- A header that is not in order stays so, whatever follows it. -/
theorem outcome_ofBytes_append_of_error {offset : Nat} {bs : Bytes} {fault : Fault}
    (h : (ofBytes offset bs).outcome = .error fault) (more : Bytes) :
    (ofBytes offset (bs ++ more)).size? = none ∧
      (ofBytes offset (bs ++ more)).outcome = .error fault := by
  by_cases hlen : bs.length < headerSize
  · simp [ofBytes, hlen, outcome] at h
  · rw [ofBytes, if_neg hlen, ofHeader_eq] at h
    split at h
    · split at h
      · simp [outcome] at h
      · split at h <;> simp [outcome] at h
    · rename_i hacc
      have hheader := Header.ofBytes_append (Nat.not_lt.mp hlen) more
      rw [ofBytes, if_neg (by rw [List.length_append]; omega), hheader, ofHeader_eq, if_neg hacc]
      exact ⟨rfl, h⟩

/-- The outcome fails when a header is there that is not in order. -/
theorem outcome_ofBytes_eq_error_iff {offset : Nat} {bs : Bytes} {fault : Fault} :
    (ofBytes offset bs).outcome = .error fault ↔
      headerSize ≤ bs.length ∧ ¬(Header.ofBytes bs).Acceptable ∧
        fault = complaint offset (Header.ofBytes bs) := by
  rw [ofBytes]
  split
  · rename_i hshort
    simp [outcome, Nat.not_le.mpr hshort]
  · rename_i hlen
    rw [ofHeader_eq]
    split
    · rename_i hacc
      simp only [hacc, not_true_eq_false, false_and, and_false, iff_false]
      split
      · simp [outcome]
      · split <;> simp [outcome]
    · rename_i hacc
      simp [outcome, hacc, Nat.not_lt.mp hlen, eq_comm]

/-- Where no frame begins and the outcome is good, more bytes may still complete one. -/
theorem outcome_ofBytes_eq_ok_iff {offset : Nat} {bs : Bytes} (h : (ofBytes offset bs).size? = none) :
    (ofBytes offset bs).outcome = .ok () ↔
      bs.length < headerSize ∨
        (Header.ofBytes bs).Acceptable ∧ bs.length < (Header.ofBytes bs).recordSize := by
  rw [ofBytes] at h ⊢
  split
  · rename_i hshort
    simp [outcome, hshort]
  · rename_i hlen
    rw [if_neg hlen, ofHeader_eq] at h
    rw [ofHeader_eq]
    split
    · rename_i hacc
      rw [if_pos hacc] at h
      split
      · rename_i hpartial
        simp [outcome, hacc, hpartial]
      · rename_i hroom
        rw [if_neg hroom] at h
        split at h <;> cases h
    · rename_i hacc
      simp [outcome, hlen, hacc]

/-- The fault names the place of the header and is one of truncation. -/
theorem kind_complaint (offset : Nat) (header : Header) :
    (complaint offset header).kind = .truncatedRecord := by
  rw [complaint]
  split <;> rfl

end Front

/-! ### Cutting a byte string into frames -/

/-- A byte string cut into frames as far as that goes. -/
structure Segmentation where
  /-- The frames. -/
  frames : List Bytes
  /-- What lies behind the last frame. -/
  rest : Bytes
  /-- How decoding ends there. -/
  outcome : Outcome

/-- The same behind further frames. -/
def Segmentation.prepend (frames : List Bytes) (s : Segmentation) : Segmentation :=
  { s with frames := frames ++ s.frames }

/-- Cuts off one frame after another, the first of which lies at `offset` in the stream. -/
def segment (offset : Nat) (bs : Bytes) : Segmentation :=
  match _h : (Front.ofBytes offset bs).size? with
  | some size => (segment (offset + size) (bs.drop size)).prepend [bs.take size]
  | none => ⟨[], bs, (Front.ofBytes offset bs).outcome⟩
termination_by bs.length
decreasing_by
  obtain ⟨hle, hframe⟩ := Front.size?_ofBytes_eq_some_iff.mp _h
  have := hframe.headerSize_le
  rw [List.length_take_of_le hle, headerSize] at this
  rw [List.length_drop]
  omega

theorem segment_of_some {offset size : Nat} {bs : Bytes}
    (h : (Front.ofBytes offset bs).size? = some size) :
    segment offset bs = (segment (offset + size) (bs.drop size)).prepend [bs.take size] := by
  rw [segment]
  split
  · rename_i size' h'
    rw [h] at h'
    cases h'
    rfl
  · rename_i h'
    rw [h] at h'
    cases h'

theorem segment_of_none {offset : Nat} {bs : Bytes}
    (h : (Front.ofBytes offset bs).size? = none) :
    segment offset bs = ⟨[], bs, (Front.ofBytes offset bs).outcome⟩ := by
  rw [segment]
  split
  · rename_i h'
    rw [h] at h'
    cases h'
  · rfl

/-- No byte is lost or made up. -/
theorem flatten_segment (offset : Nat) (bs : Bytes) :
    (segment offset bs).frames.flatten ++ (segment offset bs).rest = bs := by
  fun_induction segment offset bs with
  | case1 offset bs size h ih => simp [Segmentation.prepend, ih]
  | case2 offset bs h => rfl

theorem isFrame_of_mem_segment {offset : Nat} {bs frame : Bytes}
    (hmem : frame ∈ (segment offset bs).frames) : IsFrame frame := by
  fun_induction segment offset bs with
  | case1 offset bs size h ih =>
    rcases List.mem_cons.mp hmem with rfl | hmem
    · exact (Front.size?_ofBytes_eq_some_iff.mp h).2
    · exact ih hmem
  | case2 offset bs h => cases hmem

/-- Where the frames end does not depend on the place in the stream. -/
theorem frames_segment_congr (offset offset' : Nat) (bs : Bytes) :
    (segment offset bs).frames = (segment offset' bs).frames := by
  fun_induction segment offset bs generalizing offset' with
  | case1 offset bs size h ih =>
    rw [segment_of_some ((Front.size?_ofBytes_congr offset' offset bs).trans h)]
    exact congrArg ([bs.take size] ++ ·) (ih (offset' + size))
  | case2 offset bs h =>
    rw [segment_of_none ((Front.size?_ofBytes_congr offset' offset bs).trans h)]

/-- What lies behind the last frame does not begin with another one. -/
theorem front_segment_rest (offset : Nat) (bs : Bytes) :
    (Front.ofBytes (offset + (segment offset bs).frames.flatten.length)
        (segment offset bs).rest).size? = none ∧
      (Front.ofBytes (offset + (segment offset bs).frames.flatten.length)
        (segment offset bs).rest).outcome = (segment offset bs).outcome := by
  fun_induction segment offset bs with
  | case1 offset bs size h ih =>
    have hlength := List.length_take_of_le (Front.size?_ofBytes_eq_some_iff.mp h).1
    simpa [Segmentation.prepend, hlength, Nat.add_assoc] using ih
  | case2 offset bs h => exact ⟨h, rfl⟩

/-- **Frames in front of a byte string are cut off one by one.** -/
theorem segment_flatten {frames : List Bytes} (h : ∀ frame ∈ frames, IsFrame frame) (offset : Nat)
    (rest : Bytes) :
    segment offset (frames.flatten ++ rest) =
      (segment (offset + frames.flatten.length) rest).prepend frames := by
  induction frames generalizing offset with
  | nil => rfl
  | cons frame frames ih =>
    have hsize : (Front.ofBytes offset (frame ++ (frames.flatten ++ rest))).size? =
        some frame.length :=
      Front.size?_ofBytes_eq_some_iff.mpr
        ⟨by simp, by simpa using h frame List.mem_cons_self⟩
    rw [List.flatten_cons, List.append_assoc, segment_of_some hsize, List.drop_left,
      List.take_left, ih fun g hg => h g (List.mem_cons_of_mem _ hg), List.length_append,
      Nat.add_assoc]
    rfl

/-- Where no frame begins behind them they are all that is cut off. -/
theorem segment_flatten_of_none {frames : List Bytes} (h : ∀ frame ∈ frames, IsFrame frame)
    {offset : Nat} {rest : Bytes}
    (hrest : (Front.ofBytes (offset + frames.flatten.length) rest).size? = none) :
    segment offset (frames.flatten ++ rest) =
      ⟨frames, rest, (Front.ofBytes (offset + frames.flatten.length) rest).outcome⟩ := by
  rw [segment_flatten h, segment_of_none hrest, Segmentation.prepend, List.append_nil]

/-- A row of frames is cut up without a rest. -/
theorem segment_row {frames : List Bytes} (h : ∀ frame ∈ frames, IsFrame frame) (offset : Nat) :
    segment offset frames.flatten = ⟨frames, [], .ok ()⟩ := by
  have hnone : (Front.ofBytes (offset + frames.flatten.length) []).size? = none := rfl
  have hrow := segment_flatten_of_none h hnone
  rwa [List.append_nil] at hrow

/-- **Bytes that arrive later leave the frames as they are.** -/
theorem segment_append (offset : Nat) (bs more : Bytes) :
    segment offset (bs ++ more) =
      (segment (offset + (segment offset bs).frames.flatten.length)
        ((segment offset bs).rest ++ more)).prepend (segment offset bs).frames := by
  calc segment offset (bs ++ more)
      = segment offset
          ((segment offset bs).frames.flatten ++ ((segment offset bs).rest ++ more)) := by
        rw [← List.append_assoc, flatten_segment]
    _ = _ := segment_flatten (fun _ => isFrame_of_mem_segment) _ _

/-- A header that is not in order stops the frames for good. -/
theorem segment_append_of_error {offset : Nat} {bs : Bytes} {fault : Fault}
    (h : (segment offset bs).outcome = .error fault) (more : Bytes) :
    segment offset (bs ++ more) =
      ⟨(segment offset bs).frames, (segment offset bs).rest ++ more, .error fault⟩ := by
  have hfront := (front_segment_rest offset bs).2
  obtain ⟨hsize, houtcome⟩ := Front.outcome_ofBytes_append_of_error (hfront.trans h) more
  rw [segment_append, segment_of_none hsize, houtcome, Segmentation.prepend, List.append_nil]

/-- **A byte string is a row of frames in one way at most.** -/
theorem eq_of_flatten_eq {frames others : List Bytes} (h : ∀ frame ∈ frames, IsFrame frame)
    (h' : ∀ frame ∈ others, IsFrame frame) (heq : frames.flatten = others.flatten) :
    frames = others := by
  have key : ∀ {row : List Bytes}, (∀ frame ∈ row, IsFrame frame) →
      (segment 0 row.flatten).frames = row := by
    intro row hrow
    rw [segment_row hrow]
  rw [← key h, heq, key h']

/-! ### Records as frames -/

namespace Record

variable {r : Record}

theorem length_bytes (r : Record) : r.bytes.length = r.size :=
  Bytes.length_window ..

/-- The bytes of a record begin with its header. -/
theorem header_bytes (h : headerSize ≤ r.size) : Header.ofBytes r.bytes = r.header := by
  rw [headerSize] at h
  simp only [bytes, header, Header.ofBytes]
  rw [Bytes.getD_window (by omega), Bytes.getD_window (by omega),
    Bytes.window_window (by omega), Bytes.window_window (by omega), Bytes.window_window (by omega)]

/-- A record whose header is in order is a frame. -/
theorem isFrame_bytes (h : r.header.Acceptable) : IsFrame r.bytes := by
  have hheader := header_bytes (r := r) h.headerSize_le
  constructor
  case length_eq => rw [hheader, length_bytes, size]
  case headerSize_le =>
    rw [length_bytes]
    exact h.headerSize_le
  case minSize_le =>
    rw [hheader, length_bytes]
    exact h.minSize_le

/-- Whether the record has a code of the catalog. -/
def isListed (r : Record) : Bool :=
  (RType.ofCode? r.header.rtype).isSome

theorem isKnown_bytes (h : headerSize ≤ r.size) : isKnown r.bytes = r.isListed := by
  rw [isKnown, header_bytes h, isListed]

/-- A record with room for the layout that its code designates has this layout. -/
theorem variant_of_size_le {entry : RType} (hentry : RType.ofCode? r.header.rtype = some entry)
    (h : entry.recordType.size ≤ r.size) : r.variant = .ok entry.recordType := by
  rw [variant, rtype, Header.rtypeEntry, hentry]
  exact if_neg (Nat.not_lt.mpr h)

/-- A record that is a frame with a code of the catalog has room for the layout that the code
designates. -/
theorem variant_of_isFrame {entry : RType} (h : IsFrame r.storage)
    (hentry : RType.ofCode? r.header.rtype = some entry) :
    entry.recordType.size ≤ r.size ∧ r.variant = .ok entry.recordType := by
  have hmin := h.minSize_le
  have hcode : RType.ofCode? (Header.ofBytes r.storage).rtype = some entry := hentry
  rw [RType.minSizeOfCode, hcode, h.length_eq] at hmin
  dsimp only at hmin
  rw [RType.minSize_eq] at hmin
  exact ⟨hmin, variant_of_size_le hentry hmin⟩

/-- So it can be copied as a record of this layout. -/
theorem toOwned_of_isFrame {entry : RType} (h : IsFrame r.storage)
    (hentry : RType.ofCode? r.header.rtype = some entry) :
    r.toOwned = .ok (.ofBytes entry.recordType r.storage) := by
  rw [toOwned, (variant_of_isFrame h hentry).2]
  rfl

/-- And the eight bytes behind the layout, if it has any, are its send timestamp. -/
theorem tsOut_of_isFrame {entry : RType} (h : IsFrame r.storage)
    (hentry : RType.ofCode? r.header.rtype = some entry) :
    r.tsOut.toOption =
      if entry.recordType.size + 8 ≤ r.storage.length then
        some (UInt64.ofNat (LittleEndian.decode ((r.storage.drop entry.recordType.size).take 8)))
      else none := by
  have hsize : r.size = r.storage.length := h.length_eq.symm
  rw [tsOut, rtype, Header.rtypeEntry, hentry, ← entry.minSize_eq]
  by_cases hroom : entry.minSize + 8 ≤ r.storage.length
  · rw [if_pos hroom, ← Bytes.window_eq_take_drop hroom]
    exact congrArg Except.toOption (if_neg (by rw [hsize]; exact Nat.not_lt.mpr hroom))
  · rw [if_neg hroom]
    exact congrArg Except.toOption (if_pos (by rw [hsize]; exact Nat.not_le.mp hroom))

/-- Records that lie one after another are cut apart again. -/
theorem knownRecords_map_bytes {rs : List Record} (h : ∀ r ∈ rs, r.header.Acceptable) :
    knownRecords (rs.map (·.bytes)) = (rs.filter (·.isListed)).map fun r => ⟨r.bytes⟩ := by
  rw [knownRecords, List.filter_map, List.map_map]
  congr 1
  refine List.filter_congr fun r hr => ?_
  exact isKnown_bytes (h r hr).headerSize_le

end Record

/-- The bytes of a record that is made of a frame are the frame. -/
theorem IsFrame.bytes_eq {frame : Bytes} (h : IsFrame frame) : (Record.mk frame).bytes = frame := by
  have hsize : (Record.mk frame).size = frame.length := h.length_eq.symm
  rw [Record.bytes, hsize, Bytes.window_eq_take_drop (Nat.zero_add _ ▸ Nat.le_refl _), List.drop_zero,
    List.take_length]

theorem map_bytes_knownRecords {frames : List Bytes} (h : ∀ frame ∈ frames, IsFrame frame) :
    (knownRecords frames).map (·.bytes) = frames.filter isKnown := by
  rw [knownRecords, List.map_map]
  calc (frames.filter isKnown).map ((·.bytes) ∘ Record.mk)
      = (frames.filter isKnown).map id :=
        List.map_congr_left fun frame hframe => (h frame (List.mem_filter.mp hframe).1).bytes_eq
    _ = frames.filter isKnown := List.map_id _

end MarketWire
