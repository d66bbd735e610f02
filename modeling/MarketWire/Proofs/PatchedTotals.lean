import MarketWire.Proofs.BlockAcceptance

/-!
# Totals in a block already written

The totals may become known only after the block was written, and then they are overwritten in
place. Their position is computed by hand, and it has to be right in two ways. What is read
afterwards must be what was read before with the new totals in place, even if nobody but a hostile
hand could have written the block. And what was written must become what would have been written had
the totals been known.

Both follow from one fact about frames: the totals stand between the first eighteen bytes and the
rest, and neither of these depends on them. Any thirty-two bytes are the bytes of some totals, so
what was overwritten can be put back in the same way. That is why a block that can be read
afterwards could be read before.

## Main definitions

* `Metadata.overwriteTotals` — other bytes in place of those of the totals.
* `Metadata.HoldsBlock` — a byte string begins with a whole block, as far as its size tells.
* `Metadata.Totals.normalize` — what is left of totals after the trip.

## Main results

* `Metadata.IsBlock.overwrite` — a block with other totals in it.
* `Metadata.exists_encode_withTotals` — the block that is written for other totals.
* `Metadata.patch_commutes` — **overwriting the totals commutes with reading and writing**.
-/

namespace MarketWire

namespace Metadata

/-! ### Overwriting -/

/-- Other bytes in place of those of the totals. -/
def overwriteTotals (bs field : Bytes) : Bytes :=
  bs.take Totals.offset ++ field ++ bs.drop (Totals.offset + Totals.size)

/-- Bytes that reach behind the totals fall into three parts. -/
theorem exists_eq_append_totals {bs : Bytes} (h : Totals.offset + Totals.size ≤ bs.length) :
    ∃ front old back, bs = front ++ old ++ back ∧ front.length = Totals.offset ∧
      old.length = Totals.size := by
  refine ⟨bs.take Totals.offset, (bs.drop Totals.offset).take Totals.size,
    bs.drop (Totals.offset + Totals.size), ?_, ?_, ?_⟩
  · rw [← List.drop_drop, List.append_assoc, List.take_append_drop, List.take_append_drop]
  · rw [List.length_take]
    omega
  · rw [List.length_take, List.length_drop]
    omega

section Parts

variable {front old back field : Bytes}

theorem overwriteTotals_append (hfront : front.length = Totals.offset)
    (hold : old.length = Totals.size) :
    overwriteTotals (front ++ old ++ back) field = front ++ field ++ back := by
  have hhead : (front ++ old).length = Totals.offset + Totals.size := by
    rw [List.length_append, hfront, hold]
  rw [overwriteTotals, List.drop_left' hhead, List.append_assoc front old back,
    List.take_left' hfront]

/-- In a frame the totals stand behind the dataset and the schema. -/
theorem overwriteTotals_blockOf_append (hfront : front.length = datasetWidth + 2)
    (hold : old.length = Totals.size) (hfield : field.length = Totals.size) (rest : Bytes) :
    overwriteTotals (blockOf (front ++ old ++ back) ++ rest) field =
      blockOf (front ++ field ++ back) ++ rest := by
  have hlength : (front ++ old ++ back).length = (front ++ field ++ back).length := by
    simp only [List.length_append, hold, hfield]
  rw [blockOf, blockOf, hlength]
  generalize hprologue : magic ++ [formatVersion] ++
    LittleEndian.encode 4 (front ++ field ++ back).length = prologue
  have hparts : prologue ++ (front ++ old ++ back) ++ rest =
      (prologue ++ front) ++ old ++ (back ++ rest) := by
    simp only [List.append_assoc]
  have hoffset : (prologue ++ front).length = Totals.offset := by
    simp only [← hprologue, List.length_append, LittleEndian.length_encode, hfront]
    rfl
  rw [hparts, overwriteTotals_append hoffset hold]
  simp only [List.append_assoc]

end Parts

section Outside

variable {bs field : Bytes}

theorem length_overwriteTotals (h : Totals.offset + Totals.size ≤ bs.length)
    (hfield : field.length = Totals.size) : (overwriteTotals bs field).length = bs.length := by
  obtain ⟨front, old, back, rfl, hfront, hold⟩ := exists_eq_append_totals h
  rw [overwriteTotals_append hfront hold]
  simp only [List.length_append, hold, hfield]

/-- No other byte is changed. -/
theorem getElem?_overwriteTotals (h : Totals.offset + Totals.size ≤ bs.length)
    (hfield : field.length = Totals.size) {i : Nat}
    (hi : i < Totals.offset ∨ Totals.offset + Totals.size ≤ i) :
    (overwriteTotals bs field)[i]? = bs[i]? := by
  obtain ⟨front, old, back, rfl, hfront, hold⟩ := exists_eq_append_totals h
  rw [overwriteTotals_append hfront hold]
  rcases hi with hlt | hle
  · rw [List.append_assoc, List.append_assoc, List.getElem?_append_left (by omega),
      List.getElem?_append_left (by omega)]
  · have hend : (front ++ field).length = (front ++ old).length := by
      rw [List.length_append, List.length_append, hold, hfield]
    have hbehind : (front ++ old).length ≤ i := by
      rw [List.length_append]
      omega
    rw [List.getElem?_append_right hbehind, List.getElem?_append_right (hend ▸ hbehind), hend]

/-- What was overwritten can be put back. -/
theorem overwriteTotals_overwriteTotals (h : Totals.offset + Totals.size ≤ bs.length)
    (hfield : field.length = Totals.size) :
    overwriteTotals (overwriteTotals bs field) ((bs.drop Totals.offset).take Totals.size) = bs := by
  obtain ⟨front, old, back, rfl, hfront, hold⟩ := exists_eq_append_totals h
  have hbytes : ((front ++ old ++ back).drop Totals.offset).take Totals.size = old := by
    rw [List.append_assoc, List.drop_left' hfront, List.take_left' hold]
  rw [overwriteTotals_append hfront hold, overwriteTotals_append hfront hfield, hbytes]

end Outside

/-! ### Totals -/

/-- Any eight bytes are the bytes of a number. -/
theorem exists_eq_encode_append {bs : Bytes} {k : Nat} (h : bs.length = 8 + k) :
    ∃ (n : UInt64) (rest : Bytes),
      bs = LittleEndian.encode 8 n.toNat ++ rest ∧ rest.length = k := by
  let e := LittleEndian.uint64Equiv.trans (LittleEndian.numberEquiv 8)
  let field : FixedBytes 8 := ⟨bs.take 8, List.length_take_of_le (by omega)⟩
  have hfield : LittleEndian.encode 8 (e.symm field).toNat = bs.take 8 :=
    congrArg Subtype.val (e.apply_symm_apply field)
  refine ⟨e.symm field, bs.drop 8, ?_, ?_⟩
  · rw [hfield, List.take_append_drop]
  · rw [List.length_drop]
    omega

/-- Any bytes in the place of the totals are the bytes of some totals. -/
theorem TotalsSection.exists_toBytes_eq {bs : Bytes} (h : bs.length = Totals.size) :
    ∃ t : TotalsSection, t.toBytes = bs := by
  obtain ⟨startTs, rest, rfl, hthree⟩ := exists_eq_encode_append (k := 24) h
  obtain ⟨endTs, rest, rfl, htwo⟩ := exists_eq_encode_append (k := 16) hthree
  obtain ⟨limit, rest, rfl, hone⟩ := exists_eq_encode_append (k := 8) htwo
  obtain ⟨recordCount, rest, rfl, hnone⟩ := exists_eq_encode_append (k := 0) hone
  obtain rfl := List.length_eq_zero_iff.mp hnone
  refine ⟨⟨startTs, endTs, limit, recordCount⟩, ?_⟩
  simp only [toBytes, List.append_assoc, List.append_nil]

/-- The totals as they are written. -/
def Totals.written (t : Totals) : TotalsSection where
  startTs := t.startTs
  endTs := t.endTs.getD noEndTs
  limit := t.limit.getD 0
  recordCount := t.recordCount

theorem Totals.toBytes_written (t : Totals) : t.written.toBytes = t.toBytes := rfl

/-- The totals without an end or a limit that stands for none. -/
def Totals.normalize (t : Totals) : Totals :=
  { t with
    endTs := t.endTs.filter (· != noEndTs)
    limit := t.limit.filter (· != 0) }

/-- What is written for totals is read as their normal form. -/
theorem Totals.contents_written (t : Totals) : t.written.contents = t.normalize := by
  rw [normalize, ← ite_getD_eq_filter, ← ite_getD_eq_filter]
  rfl

/-! ### Reading -/

/-- What stands behind the totals. -/
def Sections.behindTotals (s : Sections) : Bytes :=
  [s.stypeIn.1.code, s.stypeOut.1.code, s.tsOut.1] ++ s.reserved ++ LittleEndian.encode 4 0 ++
    symbolsToBytes s.symbols ++ symbolsToBytes s.partialSymbols ++ symbolsToBytes s.notFound ++
    s.mappings.toBytes MappingSection.toBytes

theorem Sections.toBytes_eq (s : Sections) :
    s.toBytes = s.dataset ++ LittleEndian.encode 2 s.schema.1.toNat ++ s.totals.toBytes ++
      s.behindTotals := by
  simp only [toBytes, behindTotals, List.append_assoc]

/-- The sections with other totals. -/
def Sections.withTotals (s : Sections) (t : TotalsSection) : Sections :=
  { s with totals := t }

theorem Sections.contents_withTotals (s : Sections) (t : TotalsSection) :
    (s.withTotals t).contents = s.contents.withTotals t.contents := rfl

/-- **A block with other totals in it** is the block of the sections with other totals. -/
theorem IsBlock.overwrite {bs : Bytes} {s : Sections} {leftover : Bytes} (h : IsBlock bs s leftover)
    (t : TotalsSection) : IsBlock (overwriteTotals bs t.toBytes) (s.withTotals t) leftover := by
  obtain ⟨rest, rfl⟩ := h.isPrefix
  have hfront : (s.dataset ++ LittleEndian.encode 2 s.schema.1.toNat : Bytes).length =
      datasetWidth + 2 := by
    rw [List.length_append, s.dataset.2, LittleEndian.length_encode]
  have hbytes : (s.withTotals t).toBytes = s.dataset ++ LittleEndian.encode 2 s.schema.1.toNat ++
      t.toBytes ++ s.behindTotals := (s.withTotals t).toBytes_eq
  have hlength := h.length_le
  rw [s.toBytes_eq, List.append_assoc _ s.behindTotals] at hlength ⊢
  rw [overwriteTotals_blockOf_append hfront s.totals.length_toBytes t.length_toBytes]
  constructor
  case length_le =>
    rw [hbytes]
    simp only [List.length_append, TotalsSection.length_toBytes] at hlength ⊢
    omega
  case isPrefix =>
    rw [hbytes, List.append_assoc _ s.behindTotals]
    exact List.prefix_append _ _

/-- The byte string begins with a whole block, as far as its size tells. -/
def HoldsBlock (bs : Bytes) : Prop :=
  ∃ length, peekLength bs = .ok (some length) ∧ length ≤ bs.length

theorem HoldsBlock.le_length {bs : Bytes} (h : HoldsBlock bs) :
    Totals.offset + Totals.size ≤ bs.length := by
  obtain ⟨length, hlength, hle⟩ := h
  rw [peekLength_eq] at hlength
  have hmin := (prologue_of_announcedLength hlength).2.2
  have htotals : Totals.offset + Totals.size ≤ prologueSize + minFrameSize := by decide
  omega

theorem parse_overwriteTotals_of_parse {bs : Bytes} {m : Metadata} (h : parse bs = .ok m)
    (t : TotalsSection) : parse (overwriteTotals bs t.toBytes) = .ok (m.withTotals t.contents) := by
  obtain ⟨s, leftover, hblock, rfl⟩ := exists_isBlock_of_parse h
  rw [(hblock.overwrite t).parse_eq, s.contents_withTotals]

/-- What is read afterwards is what was read before with the new totals in place. -/
theorem parse_overwriteTotals_iff {bs : Bytes} (h : Totals.offset + Totals.size ≤ bs.length)
    (t : TotalsSection) (m' : Metadata) :
    parse (overwriteTotals bs t.toBytes) = .ok m' ↔
      ∃ m, parse bs = .ok m ∧ m' = m.withTotals t.contents := by
  constructor
  · intro hparse
    have hold : ((bs.drop Totals.offset).take Totals.size).length = Totals.size := by
      rw [List.length_take, List.length_drop]
      omega
    obtain ⟨old, hbytes⟩ := TotalsSection.exists_toBytes_eq hold
    -- With the old bytes put back, the byte string is read as before.
    have hback := parse_overwriteTotals_of_parse hparse old
    rw [hbytes, overwriteTotals_overwriteTotals h t.length_toBytes] at hback
    refine ⟨_, hback, ?_⟩
    have hagain := parse_overwriteTotals_of_parse hback t
    rw [hparse] at hagain
    exact Except.ok.inj hagain
  · rintro ⟨m, hparse, rfl⟩
    exact parse_overwriteTotals_of_parse hparse t

/-! ### Writing -/

/-- In a written frame the totals stand behind the dataset and the schema, and nothing else depends
on them. -/
theorem exists_encodeFrame_withTotals {m : Metadata} {frame : Bytes}
    (h : m.encodeFrame = .ok frame) :
    ∃ front back, front.length = datasetWidth + 2 ∧ frame = front ++ m.totals.toBytes ++ back ∧
      ∀ t, (m.withTotals t).encodeFrame = .ok (front ++ t.toBytes ++ back) := by
  obtain ⟨dataset, symbols, partialSymbols, notFound, mappings, hdataset, hsymbols, hpartial,
    hnotFound, hmappings, rfl⟩ := parts_of_encodeFrame h
  refine ⟨dataset ++ LittleEndian.encode 2 m.schemaCode.toNat,
    [m.stypeIn.code, m.stypeOut.code, if m.tsOut then 1 else 0] ++ List.replicate reservedSize 0 ++
      LittleEndian.encode 4 0 ++ symbols ++ partialSymbols ++ notFound ++ mappings, ?_, ?_,
    fun t => ?_⟩
  · obtain ⟨hfits, rfl⟩ := FixedText.encode_eq_ok_iff.mp hdataset
    rw [List.length_append, FixedText.length_pad hfits, LittleEndian.length_encode]
  · simp only [fixedFields, List.append_assoc]
  · have hframe : (m.withTotals t).encodeFrame = .ok (dataset ++ (m.withTotals t).fixedFields ++
        symbols ++ partialSymbols ++ notFound ++ mappings) := by
      rw [encodeFrame]
      simp only [withTotals, hdataset, hsymbols, hpartial, hnotFound, hmappings]
      rfl
    have hschema : (m.withTotals t).schemaCode = m.schemaCode := rfl
    have htotals : (m.withTotals t).totals = t := rfl
    rw [hframe, fixedFields, hschema, htotals]
    simp only [List.append_assoc]
    rfl

/-- **The block that is written for other totals** is the one written before, overwritten. -/
theorem exists_encode_withTotals {m : Metadata} {block : Bytes} (h : m.encode = .ok block)
    (t : Totals) (rest : Bytes) :
    ∃ block', (m.withTotals t).encode = .ok block' ∧
      overwriteTotals (block ++ rest) t.toBytes = block' ++ rest := by
  obtain ⟨frame, hframe, hmax, hversion, rfl⟩ := frame_of_encode h
  obtain ⟨front, back, hfront, rfl, hframe'⟩ := exists_encodeFrame_withTotals hframe
  refine ⟨blockOf (front ++ t.toBytes ++ back), encode_of_encodeFrame hversion (hframe' t) ?_,
    overwriteTotals_blockOf_append hfront m.totals.length_toBytes t.length_toBytes rest⟩
  simpa only [List.length_append, Totals.length_toBytes] using hmax

/-- What was written holds a block. -/
theorem holdsBlock_of_encode {m : Metadata} {block : Bytes} (h : m.encode = .ok block)
    (rest : Bytes) : HoldsBlock (block ++ rest) :=
  ⟨block.length, peekLength_append_of_encode h rest, by
    rw [List.length_append]
    exact Nat.le_add_right _ _⟩

/-! ### The call -/

theorem patch_of_holdsBlock {bs : Bytes} (h : HoldsBlock bs) (t : Totals) :
    patch bs t = (.ok (), overwriteTotals bs t.toBytes) := by
  obtain ⟨length, hlength, hle⟩ := h
  rw [patch, hlength]
  exact if_neg (Nat.not_lt.mpr hle)

theorem exists_patch_eq_error {bs : Bytes} (h : ¬HoldsBlock bs) (t : Totals) :
    ∃ fault, patch bs t = (.error fault, bs) := by
  rw [patch]
  cases hpeek : peekLength bs with
  | error fault => exact ⟨fault, rfl⟩
  | ok length? =>
    cases length? with
    | none => exact ⟨_, rfl⟩
    | some length =>
      have hshort : bs.length < length := Nat.lt_of_not_le fun hle => h ⟨length, hpeek, hle⟩
      exact ⟨_, if_pos hshort⟩

/-- **Overwriting the totals commutes with reading and writing.** Without a whole block the call
fails and leaves the bytes alone. With one it succeeds and changes the bytes of the totals only.
What can be read afterwards is exactly what could be read before, with the given totals in place, an
end of all ones and a limit of zero being none. And a block that was written becomes the block that
is written for the same metadata with the given totals, whatever follows it. -/
theorem patch_commutes (bs : Bytes) (t : Totals) :
    (¬HoldsBlock bs → ∃ fault, patch bs t = (.error fault, bs)) ∧
      (HoldsBlock bs → ∃ patched, patch bs t = (.ok (), patched) ∧ patched.length = bs.length ∧
        (∀ i, i < 26 ∨ 57 < i → patched[i]? = bs[i]?) ∧
        ∀ m', parse patched = .ok m' ↔ ∃ m, parse bs = .ok m ∧ m' = m.withTotals t.normalize) ∧
      ∀ (m : Metadata) block rest, m.encode = .ok block →
        ∃ block', (m.withTotals t).encode = .ok block' ∧
          patch (block ++ rest) t = (.ok (), block' ++ rest) := by
  refine ⟨fun h => exists_patch_eq_error h t, fun h => ?_, fun m block rest h => ?_⟩
  · have hroom := h.le_length
    refine ⟨_, patch_of_holdsBlock h t, length_overwriteTotals hroom t.length_toBytes,
      fun i hi => getElem?_overwriteTotals hroom t.length_toBytes hi, fun m' => ?_⟩
    rw [← t.toBytes_written, ← t.contents_written]
    exact parse_overwriteTotals_iff hroom t.written m'
  · obtain ⟨block', hencode, hoverwrite⟩ := exists_encode_withTotals h t rest
    exact ⟨block', hencode, by rw [patch_of_holdsBlock (holdsBlock_of_encode h rest), hoverwrite]⟩

end Metadata

end MarketWire
