import MarketWire.Proofs.ListCodecs
import MarketWire.Proofs.PreambleLength

/-!
# Metadata survives the trip

Metadata that can be written is read back, whatever follows the block, up to three things that the
format has no room for: what a text holds from its first NUL on, an end of all ones, and a limit of
zero. The latter two stand for none. `Metadata.normalize` takes them away, and nothing else is lost,
so the encoding tells apart all metadata that is in this form.

Codes that are not listed can be written and not be read, so the schema and the symbology types have
to be listed ones.

## Main definitions

* `Metadata.normalize` — what is left of metadata after the trip.
* `Metadata.HasListedCodes` — the codes are listed.

## Main results

* `Metadata.normalize_eq_self_iff` — what the format has room for.
* `Metadata.parse_encode` — **reading undoes writing**.
-/

namespace MarketWire

/-! ### What is left after the trip -/

/-- An interval with its symbol cut at the first NUL. -/
def MappingInterval.normalize (i : MappingInterval) : MappingInterval :=
  { i with symbol := Text.upToNul i.symbol }

/-- A mapping with its symbols cut at their first NULs. -/
def SymbolMapping.normalize (m : SymbolMapping) : SymbolMapping where
  nativeSymbol := Text.upToNul m.nativeSymbol
  intervals := m.intervals.map (·.normalize)

/-- The texts of a mapping. -/
def SymbolMapping.texts (m : SymbolMapping) : List Text :=
  m.nativeSymbol :: m.intervals.map (·.symbol)

theorem map_eq_self_iff {α : Type} {f : α → α} {as : List α} :
    as.map f = as ↔ ∀ a ∈ as, f a = a := by
  calc as.map f = as ↔ as.map f = as.map id := by rw [List.map_id]
    _ ↔ ∀ a ∈ as, f a = a := List.map_inj_left

theorem filter_bne_eq_self_iff {n? : Option UInt64} {absent : UInt64} :
    n?.filter (· != absent) = n? ↔ n? ≠ some absent := by
  cases n? with
  | none => simp
  | some n => by_cases h : n = absent <;> simp [h, Option.filter_some]

theorem SymbolMapping.normalize_eq_self_iff {m : SymbolMapping} :
    m.normalize = m ↔ ∀ text ∈ m.texts, 0 ∉ text := by
  have hinterval : ∀ i : MappingInterval, i.normalize = i ↔ 0 ∉ i.symbol := fun i => by
    rw [← Text.upToNul_eq_self_iff]
    cases i
    simp [MappingInterval.normalize]
  have hfields : m.normalize = m ↔ Text.upToNul m.nativeSymbol = m.nativeSymbol ∧
      m.intervals.map (·.normalize) = m.intervals := by
    cases m
    simp [normalize]
  rw [hfields, map_eq_self_iff, Text.upToNul_eq_self_iff, texts, List.forall_mem_cons,
    List.forall_mem_map]
  simp only [hinterval]

namespace Metadata

/-- The metadata with its texts cut at their first NULs, and without an end or a limit that stands
for none. -/
def normalize (m : Metadata) : Metadata :=
  { m with
    dataset := Text.upToNul m.dataset
    endTs := m.endTs.filter (· != noEndTs)
    limit := m.limit.filter (· != 0)
    symbols := m.symbols.map Text.upToNul
    partialSymbols := m.partialSymbols.map Text.upToNul
    notFound := m.notFound.map Text.upToNul
    mappings := m.mappings.map (·.normalize) }

/-- All texts. -/
def texts (m : Metadata) : List Text :=
  m.dataset :: (m.symbols ++ m.partialSymbols ++ m.notFound ++ m.mappings.flatMap (·.texts))

/-- The schema, if there is one, and the symbology types are listed. -/
structure HasListedCodes (m : Metadata) : Prop where
  /-- A schema is one of the listed ones. -/
  schema : ∀ schema ∈ m.schema, schema.IsListed
  /-- The symbology type of the query is listed. -/
  stypeIn : m.stypeIn.IsListed
  /-- The symbology type of the records is listed. -/
  stypeOut : m.stypeOut.IsListed

/-- Metadata is left as it is when no text holds a NUL and neither the end nor the limit is one that
stands for none. -/
theorem normalize_eq_self_iff {m : Metadata} :
    m.normalize = m ↔
      (∀ text ∈ m.texts, 0 ∉ text) ∧ m.endTs ≠ some noEndTs ∧ m.limit ≠ some 0 := by
  have hsymbols : ∀ symbols : List Text,
      symbols.map Text.upToNul = symbols ↔ ∀ text ∈ symbols, 0 ∉ text := fun symbols => by
    simp only [map_eq_self_iff, Text.upToNul_eq_self_iff]
  have hmappings : m.mappings.map (·.normalize) = m.mappings ↔
      ∀ text ∈ m.mappings.flatMap (·.texts), 0 ∉ text := by
    simp only [map_eq_self_iff, SymbolMapping.normalize_eq_self_iff, List.mem_flatMap]
    constructor
    · rintro h text ⟨mapping, hmapping, htext⟩
      exact h mapping hmapping text htext
    · intro h mapping hmapping text htext
      exact h text ⟨mapping, hmapping, htext⟩
  have hfields : m.normalize = m ↔ Text.upToNul m.dataset = m.dataset ∧
      m.endTs.filter (· != noEndTs) = m.endTs ∧ m.limit.filter (· != 0) = m.limit ∧
      m.symbols.map Text.upToNul = m.symbols ∧
      m.partialSymbols.map Text.upToNul = m.partialSymbols ∧
      m.notFound.map Text.upToNul = m.notFound ∧
      m.mappings.map (·.normalize) = m.mappings := by
    cases m
    simp [normalize]
  rw [hfields, Text.upToNul_eq_self_iff, filter_bne_eq_self_iff, filter_bne_eq_self_iff,
    hsymbols, hsymbols, hsymbols, hmappings]
  simp only [texts, List.forall_mem_cons, List.forall_mem_append]
  constructor
  · rintro ⟨hdataset, hend, hlimit, hsymbols, hpartial, hnotFound, hmappings⟩
    exact ⟨⟨hdataset, ⟨⟨hsymbols, hpartial⟩, hnotFound⟩, hmappings⟩, hend, hlimit⟩
  · rintro ⟨⟨hdataset, ⟨⟨hsymbols, hpartial⟩, hnotFound⟩, hmappings⟩, hend, hlimit⟩
    exact ⟨hdataset, hend, hlimit, hsymbols, hpartial, hnotFound, hmappings⟩

/-! ### Fields -/

theorem yields_byte (b : UInt8) : Scan.Yields (Scan.number 1) [b] b.toNat :=
  Scan.yields_number rfl

theorem yields_scanSchema {m : Metadata} (h : m.HasListedCodes) :
    Scan.Yields scanSchema (LittleEndian.encode 2 m.schemaCode.toNat) m.schema := by
  refine (Scan.yields_number_encode m.schemaCode.toNat_lt).bind_nil ?_
  rw [UInt16.ofNat_toNat]
  cases hschema : m.schema with
  | none =>
    have hcode : m.schemaCode = Schema.mixedCode := by rw [schemaCode, hschema]
    rw [if_pos hcode]
    exact Scan.Yields.pure none
  | some schema =>
    have hcode : m.schemaCode = schema.code := by rw [schemaCode, hschema]
    have hlisted : schema.IsListed := h.schema schema hschema
    have hmixed : schema.code ≠ Schema.mixedCode := by
      intro heq
      rw [Schema.IsListed, heq] at hlisted
      exact absurd hlisted (by decide)
    rw [hcode, if_neg hmixed, if_pos hlisted]
    exact Scan.Yields.pure (some schema)

/-- A value that stands for none is none after the trip. -/
theorem ite_getD_eq_filter (n? : Option UInt64) (absent : UInt64) :
    (if n?.getD absent = absent then none else some (n?.getD absent)) = n?.filter (· != absent) := by
  cases n? with
  | none => simp
  | some n => by_cases h : n = absent <;> simp [h, Option.filter_some]

theorem yields_scanTotals (m : Metadata) :
    Scan.Yields scanTotals m.totals.toBytes m.normalize.totals := by
  rw [Totals.toBytes, List.append_assoc, List.append_assoc]
  refine (Scan.yields_number_encode (UInt64.toNat_lt _)).bind
    ((Scan.yields_number_encode (UInt64.toNat_lt _)).bind
      ((Scan.yields_number_encode (UInt64.toNat_lt _)).bind
        ((Scan.yields_number_encode (UInt64.toNat_lt _)).bind_nil ?_)))
  simp only [UInt64.ofNat_toNat, ite_getD_eq_filter]
  exact Scan.Yields.pure m.normalize.totals

theorem yields_scanSymbologyTypes {m : Metadata} (h : m.HasListedCodes) :
    Scan.Yields scanSymbologyTypes [m.stypeIn.code, m.stypeOut.code] (m.stypeIn, m.stypeOut) := by
  refine (yields_byte m.stypeIn.code).bind ((yields_byte m.stypeOut.code).bind_nil ?_)
  rw [UInt8.ofNat_toNat, UInt8.ofNat_toNat, if_pos ⟨h.stypeIn, h.stypeOut⟩]
  exact Scan.Yields.pure _

theorem yields_scanTsOut (tsOut : Bool) :
    Scan.Yields scanTsOut [if tsOut then 1 else 0] tsOut := by
  refine (yields_byte _).bind_nil ?_
  rw [UInt8.ofNat_toNat]
  cases tsOut <;> exact Scan.Yields.pure _

theorem yields_scanSchemaDefinition :
    Scan.Yields scanSchemaDefinition (LittleEndian.encode 4 0) () :=
  (Scan.yields_number_encode (by decide)).bind_nil (Scan.Yields.pure ())

/-! ### Lists -/

theorem roundTrips_text (field : Text) (width : Nat) :
    RoundTrips (FixedText.encode field width) (Scan.text width) Text.upToNul width := by
  constructor
  case yields =>
    intro text bs h _
    obtain ⟨hfits, rfl⟩ := FixedText.encode_eq_ok_iff.mp h
    rw [← FixedText.decode_pad width text]
    exact Scan.yields_text (FixedText.length_pad hfits)
  case unit_le =>
    intro text bs h
    obtain ⟨hfits, rfl⟩ := FixedText.encode_eq_ok_iff.mp h
    exact Nat.le_of_eq (FixedText.length_pad hfits).symm

theorem roundTrips_interval :
    RoundTrips encodeInterval scanInterval (·.normalize) intervalSize := by
  have hsymbol := roundTrips_text (Text.ofAscii "mapped symbol") symbolWidth
  constructor
  case yields =>
    intro i bs h hsize
    obtain ⟨symbol, hencode, h⟩ := exists_of_bind_eq_ok h
    cases h
    rw [List.length_append] at hsize
    have hyields := hsymbol.yields hencode (by omega)
    rw [List.append_assoc]
    refine (Scan.yields_number_encode i.startDate.toNat_lt).bind
      ((Scan.yields_number_encode i.endDate.toNat_lt).bind ?_)
    rw [UInt32.ofNat_toNat, UInt32.ofNat_toNat]
    exact hyields.bind_pure _
  case unit_le =>
    intro i bs h
    obtain ⟨symbol, hencode, h⟩ := exists_of_bind_eq_ok h
    cases h
    have hunit := hsymbol.unit_le hencode
    simp only [List.length_append, LittleEndian.length_encode, intervalSize]
    omega

theorem roundTrips_mapping :
    RoundTrips encodeMapping scanMapping (·.normalize) mappingSize := by
  constructor
  case yields =>
    intro m bs h hsize
    obtain ⟨native, hnative, h⟩ := exists_of_bind_eq_ok h
    obtain ⟨intervals, hintervals, h⟩ := exists_of_bind_eq_ok h
    cases h
    rw [List.length_append] at hsize
    obtain ⟨hfits, rfl⟩ := FixedText.encode_eq_ok_iff.mp hnative
    refine (Scan.yields_checkedText (FixedText.length_pad hfits)).bind ?_
    rw [FixedText.decode_pad]
    have hlist := roundTrips_interval.list (by decide) .shortWord fun count =>
      .excessIntervals count (Text.upToNul m.nativeSymbol)
    exact (hlist.yields hintervals (by omega)).bind_pure _
  case unit_le =>
    intro m bs h
    obtain ⟨native, hnative, h⟩ := exists_of_bind_eq_ok h
    obtain ⟨intervals, hintervals, h⟩ := exists_of_bind_eq_ok h
    cases h
    have hunit := (roundTrips_text (Text.ofAscii "native symbol") symbolWidth).unit_le hnative
    have hcount := (roundTrips_interval.list (by decide) .shortWord .excessMappings).unit_le hintervals
    rw [List.length_append, mappingSize]
    omega

theorem roundTrips_symbols (field : String) :
    RoundTrips (encodeList (encodeSymbol field)) scanSymbols (List.map Text.upToNul) countSize :=
  (roundTrips_text (Text.ofAscii field) symbolWidth).list (by decide) .shortSymbolCount .excessSymbols

theorem roundTrips_mappings :
    RoundTrips (encodeList encodeMapping) scanMappings (List.map (·.normalize)) countSize :=
  roundTrips_mapping.list (by decide) .shortWord .excessMappings

/-! ### Blocks -/

/-- A frame is its dataset, its fixed fields and its lists. -/
theorem parts_of_encodeFrame {m : Metadata} {frame : Bytes} (h : m.encodeFrame = .ok frame) :
    ∃ dataset symbols partialSymbols notFound mappings,
      FixedText.encode (Text.ofAscii "dataset") datasetWidth m.dataset = .ok dataset ∧
      encodeList (encodeSymbol "symbol") m.symbols = .ok symbols ∧
      encodeList (encodeSymbol "partial symbol") m.partialSymbols = .ok partialSymbols ∧
      encodeList (encodeSymbol "not found symbol") m.notFound = .ok notFound ∧
      encodeList encodeMapping m.mappings = .ok mappings ∧
      frame = dataset ++ m.fixedFields ++ symbols ++ partialSymbols ++ notFound ++ mappings := by
  obtain ⟨dataset, hdataset, h⟩ := exists_of_bind_eq_ok h
  obtain ⟨symbols, hsymbols, h⟩ := exists_of_bind_eq_ok h
  obtain ⟨partialSymbols, hpartial, h⟩ := exists_of_bind_eq_ok h
  obtain ⟨notFound, hnotFound, h⟩ := exists_of_bind_eq_ok h
  obtain ⟨mappings, hmappings, h⟩ := exists_of_bind_eq_ok h
  cases h
  exact ⟨_, _, _, _, _, hdataset, hsymbols, hpartial, hnotFound, hmappings, rfl⟩

theorem length_fixedFields (m : Metadata) : datasetWidth + m.fixedFields.length = fixedSize := by
  simp [fixedFields, fixedSize, datasetWidth, Totals.size, reservedSize]

/-- A frame has room for its fixed fields and the counts of its lists. -/
theorem minFrameSize_le_of_encodeFrame {m : Metadata} {frame : Bytes}
    (h : m.encodeFrame = .ok frame) : minFrameSize ≤ frame.length := by
  obtain ⟨dataset, symbols, partialSymbols, notFound, mappings, hdataset, hsymbols, hpartial,
    hnotFound, hmappings, rfl⟩ := parts_of_encodeFrame h
  have hdataset := (roundTrips_text _ _).unit_le hdataset
  have hsymbols := (roundTrips_symbols _).unit_le hsymbols
  have hpartial := (roundTrips_symbols _).unit_le hpartial
  have hnotFound := (roundTrips_symbols _).unit_le hnotFound
  have hmappings := roundTrips_mappings.unit_le hmappings
  have hfixed := m.length_fixedFields
  simp only [List.length_append, minFrameSize]
  omega

/-- What is written for a frame is read back. -/
theorem yields_scanFrame {m : Metadata} (h : m.HasListedCodes) {frame : Bytes}
    (hframe : m.encodeFrame = .ok frame) (hsize : frame.length ≤ maxFrameSize) :
    Scan.Yields (scanFrame m.version) frame m.normalize := by
  obtain ⟨dataset, symbols, partialSymbols, notFound, mappings, hdataset, hsymbols, hpartial,
    hnotFound, hmappings, rfl⟩ := parts_of_encodeFrame hframe
  simp only [List.length_append] at hsize
  have hdataset := (roundTrips_text _ _).yields hdataset (by omega)
  have hsymbols := (roundTrips_symbols _).yields hsymbols (by omega)
  have hpartial := (roundTrips_symbols _).yields hpartial (by omega)
  have hnotFound := (roundTrips_symbols _).yields hnotFound (by omega)
  have hmappings := roundTrips_mappings.yields hmappings (by omega)
  have hreserved := Scan.yields_skip (List.length_replicate (n := reservedSize) (a := (0 : UInt8)))
  -- The codes and the flag are written as one stretch and read in two steps.
  have hflags : [m.stypeIn.code, m.stypeOut.code, if m.tsOut then 1 else 0] =
      [m.stypeIn.code, m.stypeOut.code] ++ [if m.tsOut then 1 else 0] := rfl
  rw [fixedFields, hflags]
  simp only [List.append_assoc]
  exact hdataset.bind ((yields_scanSchema h).bind ((yields_scanTotals m).bind
    ((yields_scanSymbologyTypes h).bind ((yields_scanTsOut m.tsOut).bind (hreserved.bind
      (yields_scanSchemaDefinition.bind (hsymbols.bind (hpartial.bind (hnotFound.bind
        (hmappings.bind_pure _))))))))))

/-- A block with the given frame. -/
def blockOf (frame : Bytes) : Bytes :=
  magic ++ [formatVersion] ++ LittleEndian.encode 4 frame.length ++ frame

theorem blockOf_append (frame rest : Bytes) :
    blockOf frame ++ rest = 0x44 :: 0x42 :: 0x4E :: formatVersion ::
      (LittleEndian.encode 4 frame.length ++ (frame ++ rest)) := by
  simp [blockOf, magic]

theorem length_blockOf (frame : Bytes) : (blockOf frame).length = prologueSize + frame.length := by
  have hprologue : magic.length + [formatVersion].length + 4 = prologueSize := rfl
  simp only [blockOf, List.length_append, LittleEndian.length_encode, hprologue]

/-- What is written is a block with the frame. -/
theorem frame_of_encode {m : Metadata} {block : Bytes} (h : m.encode = .ok block) :
    ∃ frame, m.encodeFrame = .ok frame ∧ frame.length ≤ maxFrameSize ∧
      m.version = formatVersion ∧ block = blockOf frame := by
  rw [encode] at h
  split at h
  · cases h
  · rename_i hversion
    have hversion := Decidable.not_not.mp hversion
    obtain ⟨frame, hframe, h⟩ := exists_of_bind_eq_ok h
    split at h
    · cases h
    · rename_i hsize
      cases h
      exact ⟨frame, hframe, Nat.not_lt.mp hsize, hversion, by rw [hversion, blockOf]⟩

/-- A frame that is not too long is written behind its prologue. -/
theorem encode_of_encodeFrame {m : Metadata} {frame : Bytes} (hversion : m.version = formatVersion)
    (hframe : m.encodeFrame = .ok frame) (hmax : frame.length ≤ maxFrameSize) :
    m.encode = .ok (blockOf frame) := by
  rw [encode, hversion, if_neg (fun h => h rfl), hframe]
  exact if_neg (Nat.not_lt.mpr hmax)

/-- A block announces its size, unless its frame is too short. -/
theorem announcedLength_blockOf_append {frame : Bytes} (hmax : frame.length ≤ maxFrameSize)
    (rest : Bytes) :
    announcedLength (blockOf frame ++ rest) =
      if frame.length < minFrameSize then .error (.shortFrame frame.length)
      else .ok (some (prologueSize + frame.length)) := by
  have hcount : LittleEndian.decode (LittleEndian.encode 4 frame.length) = frame.length := by
    rw [LittleEndian.decode_encode]
    exact Nat.mod_eq_of_lt (Nat.lt_succ_of_le hmax)
  have hannounced := announcedLength_signature_append
    (LittleEndian.length_encode 4 frame.length) (frame ++ rest)
  rw [hcount] at hannounced
  rw [blockOf_append]
  exact hannounced

/-- What was written announces its size, whatever follows. -/
theorem peekLength_append_of_encode {m : Metadata} {block : Bytes} (h : m.encode = .ok block)
    (rest : Bytes) : peekLength (block ++ rest) = .ok (some block.length) := by
  obtain ⟨frame, hframe, hmax, -, rfl⟩ := frame_of_encode h
  have hmin := minFrameSize_le_of_encodeFrame hframe
  rw [peekLength_eq, announcedLength_blockOf_append hmax, if_neg (Nat.not_lt.mpr hmin),
    length_blockOf]

/-- A block is read from its frame on. -/
theorem exists_parse_blockOf_append {frame : Bytes} (hmin : minFrameSize ≤ frame.length)
    (hmax : frame.length ≤ maxFrameSize) (rest : Bytes) :
    ∃ touches, parse (blockOf frame ++ rest) = ((scanFrame formatVersion).run.run
      ⟨frame ++ rest, prologueSize, prologueSize + frame.length, touches⟩).1 := by
  have hlength : announcedLength (blockOf frame ++ rest) =
      .ok (some (prologueSize + frame.length)) := by
    rw [announcedLength_blockOf_append hmax, if_neg (Nat.not_lt.mpr hmin)]
  have hdrop : (blockOf frame ++ rest).drop prologueSize = frame ++ rest := by
    rw [blockOf_append]
    exact List.drop_left' (LittleEndian.length_encode 4 _)
  have hroom : prologueSize + frame.length ≤ (blockOf frame ++ rest).length := by
    rw [List.length_append, length_blockOf]
    exact Nat.le_add_right _ _
  obtain ⟨touches, hrun⟩ := exists_run_scanBlock hlength hroom
  rw [hdrop] at hrun
  exact ⟨touches, congrArg Prod.fst hrun⟩

/-- What was written is read back in its normal form, whatever follows the block. -/
theorem parse_append_of_encode {m : Metadata} (hlisted : m.HasListedCodes) {block : Bytes}
    (h : m.encode = .ok block) (rest : Bytes) : parse (block ++ rest) = .ok m.normalize := by
  obtain ⟨frame, hframe, hmax, hversion, rfl⟩ := frame_of_encode h
  have hyields := yields_scanFrame hlisted hframe hmax
  rw [hversion] at hyields
  obtain ⟨touches, hparse⟩ :=
    exists_parse_blockOf_append (minFrameSize_le_of_encodeFrame hframe) hmax rest
  obtain ⟨touches', hrun⟩ := hyields ⟨_, prologueSize, prologueSize + frame.length, touches⟩ rest
    rfl (Nat.le_refl _)
  exact hparse.trans (congrArg Prod.fst hrun)

/-- **Reading undoes writing.** Metadata that could be written is read back in its normal form,
whatever follows the block. It is the same metadata exactly when no text holds a NUL and neither the
end nor the limit stands for none, and different metadata of that kind is written differently. -/
theorem parse_encode {m : Metadata} (hlisted : m.HasListedCodes) {block : Bytes}
    (h : m.encode = .ok block) :
    (∀ rest, parse (block ++ rest) = .ok m.normalize) ∧
      (∀ rest, parse (block ++ rest) = .ok m ↔
        (∀ text ∈ m.texts, 0 ∉ text) ∧ m.endTs ≠ some noEndTs ∧ m.limit ≠ some 0) ∧
      ∀ other : Metadata, other.HasListedCodes → other.encode = .ok block →
        m.normalize = m → other.normalize = other → other = m := by
  have hread := parse_append_of_encode hlisted h
  refine ⟨hread, fun rest => ?_, fun other hother hsame hm hnormal => ?_⟩
  · rw [hread rest, Except.ok.injEq]
    exact normalize_eq_self_iff
  · have hagain := hread []
    rw [parse_append_of_encode hother hsame [], hm, hnormal] at hagain
    exact Except.ok.inj hagain

/-- Metadata with a NUL in its dataset, a limit that stands for none, and one symbol. -/
def exampleMetadata : Metadata :=
  { dataset := [0x44, 0, 0x45], limit := some 0, symbols := [[0x53]] }

theorem parse_encode_exampleMetadata :
    ∃ block, exampleMetadata.encode = .ok block ∧
      parse block = .ok { exampleMetadata with dataset := [0x44], limit := none } := by
  have hencode : exampleMetadata.encode = .ok (blockOf
      ([0x44, 0, 0x45] ++ List.replicate 13 0 ++ [0xFF, 0xFF] ++ List.replicate 8 0 ++
        List.replicate 8 0xFF ++ List.replicate 16 0 ++ [1, 0, 0] ++ List.replicate 51 0 ++
        [1, 0, 0, 0, 0x53] ++ List.replicate 33 0)) := by
    decide +kernel
  have hlisted : exampleMetadata.HasListedCodes := ⟨by decide, by decide, by decide⟩
  have hread := (parse_encode hlisted hencode).1 []
  rw [List.append_nil] at hread
  exact ⟨_, hencode, hread⟩

end Metadata

end MarketWire
