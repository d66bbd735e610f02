import MarketWire.Proofs.WritableMetadata

/-!
# What is written unchecked

A writer of metadata judges the version, the lengths of the texts and the length of the frame, and
nothing else. So it writes metadata that the format has no form for: codes that are not listed, texts
with a NUL in them, an end or a limit that stands for none. What becomes of these is told here for all
metadata. With a code that is not listed the block is refused, the schema being judged ahead of the
symbology types. The rest is lost on the way: a text ends at its first NUL, and an end, a limit or a
schema whose number stands for none is none.

The code of a mixed stream is not listed and yet readable, as that of no schema. It is dealt with by
looking at the metadata without that schema, which is written in the same way.

## Main definitions

* `Scan.Stops` — a walk ends with a fault wherever some bytes stand.
* `Metadata.asRead` — what is left of metadata with readable codes.
* `Metadata.ReadsBack` — the answer to metadata that was written.

## Main results

* `Metadata.parse_append_of_encode_eq_error` — which fault an unlisted code leads to.
* `Metadata.encode_reads_back` — **what is read of everything that can be written**.
* `Metadata.encode_unlisted` — metadata that is written and not read.
-/

namespace MarketWire

/-! ### Walks that come to an end -/

namespace Scan

variable {α β : Type} {scan : Scan α} {bs more : Bytes} {fault : Fault}

/-- Wherever the bytes stand before the limit, the walk ends with the fault. -/
def Stops (scan : Scan α) (bs : Bytes) (fault : Fault) : Prop :=
  ∀ s rest, s.rest = bs ++ rest → s.offset + bs.length ≤ s.limit →
    ∃ last, scan.run.run s = (.error fault, last)

theorem stops_throw (fault : Fault) : Stops (throw fault : Scan α) [] fault := by
  intro s rest _ _
  exact ⟨s, rfl⟩

/-- What a walk would do next makes no difference. -/
theorem Stops.bind (h : Stops scan bs fault) (next : α → Scan β) :
    Stops (scan >>= next) bs fault := by
  intro s rest hrest hlimit
  obtain ⟨last, hrun⟩ := h s rest hrest hlimit
  exact ⟨last, by rw [run_bind, hrun]⟩

/-- Bytes that it does not come to make no difference either. -/
theorem Stops.append (h : Stops scan bs fault) (more : Bytes) : Stops scan (bs ++ more) fault := by
  intro s rest hrest hlimit
  rw [List.length_append] at hlimit
  exact h s (more ++ rest) (by rw [hrest, List.append_assoc]) (by omega)

/-- A walk may come to an end behind its first step. -/
theorem Yields.stops {next : α → Scan β} {a : α} (hscan : Yields scan bs a)
    (hnext : Stops (next a) more fault) : Stops (scan >>= next) (bs ++ more) fault := by
  intro s rest hrest hlimit
  rw [List.length_append] at hlimit
  obtain ⟨touches, hrun⟩ := hscan s (more ++ rest) (by rw [hrest, List.append_assoc]) (by omega)
  obtain ⟨last, hlast⟩ := hnext ⟨more ++ rest, s.offset + bs.length, s.limit, touches⟩ rest rfl
    (by dsimp only; omega)
  exact ⟨last, by rw [run_bind, hrun]; exact hlast⟩

/-- A walk may come to an end when it judges what it has read. -/
theorem Yields.stops_nil {next : α → Scan β} {a : α} (hscan : Yields scan bs a)
    (hnext : Stops (next a) [] fault) : Stops (scan >>= next) bs fault := by
  have h := hscan.stops hnext
  rwa [List.append_nil] at h

end Scan

namespace Metadata

variable {m : Metadata} {block : Bytes}

/-! ### Codes -/

/-- The schema, if there is one, is listed or has the code of a mixed stream. -/
def HasReadableSchema (m : Metadata) : Prop :=
  ∀ schema ∈ m.schema, schema.code = Schema.mixedCode ∨ schema.IsListed

/-- The symbology types are listed. -/
def HasListedTypes (m : Metadata) : Prop :=
  m.stypeIn.IsListed ∧ m.stypeOut.IsListed

/-- The metadata without the schema of a mixed stream. -/
def withoutMixed (m : Metadata) : Metadata :=
  { m with schema := m.schema.filter (·.code != Schema.mixedCode) }

/-- What is left of metadata with readable codes. -/
def asRead (m : Metadata) : Metadata :=
  m.withoutMixed.normalize

/-- The mixed code is not listed. -/
theorem not_isListed_mixed : ¬Schema.IsListed ⟨Schema.mixedCode⟩ := by
  decide

theorem schemaCode_withoutMixed (m : Metadata) : m.withoutMixed.schemaCode = m.schemaCode := by
  rw [schemaCode, schemaCode, withoutMixed]
  cases m.schema with
  | none => rfl
  | some schema =>
    by_cases hmixed : schema.code = Schema.mixedCode
    · simp [Option.filter_some, hmixed]
    · simp [Option.filter_some, hmixed]

/-- No schema and the schema of a mixed stream are written in the same way. -/
theorem encode_withoutMixed (m : Metadata) : m.withoutMixed.encode = m.encode := by
  have hfields : m.withoutMixed.fixedFields = m.fixedFields := by
    rw [fixedFields, schemaCode_withoutMixed]
    rfl
  have hframe : m.withoutMixed.encodeFrame = m.encodeFrame := by
    rw [encodeFrame, hfields]
    rfl
  rw [encode, hframe]
  rfl

theorem listed_withoutMixed (hschema : m.HasReadableSchema) :
    ∀ schema ∈ m.withoutMixed.schema, schema.IsListed := by
  intro schema hmem
  obtain ⟨hmem, hmixed⟩ := Option.mem_filter_iff.mp hmem
  rcases hschema schema hmem with hcode | hlisted
  · simp [hcode] at hmixed
  · exact hlisted

theorem withoutMixed_eq_self_iff :
    m.withoutMixed = m ↔ ∀ schema ∈ m.schema, schema.code ≠ Schema.mixedCode := by
  constructor
  · intro h schema hschema
    have hmem : schema ∈ m.withoutMixed.schema := by rwa [h]
    simpa using (Option.mem_filter_iff.mp hmem).2
  · intro h
    have hkept : m.schema.filter (·.code != Schema.mixedCode) = m.schema := by
      cases hschema : m.schema with
      | none => rfl
      | some schema => simp [Option.filter_some, h schema hschema]
    rw [withoutMixed, hkept]

/-- Metadata comes back as it is when its schema is not that of a mixed stream and nothing is lost
besides. -/
theorem asRead_eq_self_iff : m.asRead = m ↔ m.withoutMixed = m ∧ m.normalize = m := by
  constructor
  · intro h
    have hschema : m.schema.filter (·.code != Schema.mixedCode) = m.schema :=
      congrArg Metadata.schema h
    have hsame : m.withoutMixed = m := by rw [withoutMixed, hschema]
    rw [asRead, hsame] at h
    exact ⟨hsame, h⟩
  · rintro ⟨hsame, hnormal⟩
    rw [asRead, hsame, hnormal]

/-- A schema is listed if it is readable and not that of a mixed stream. -/
theorem hasListedCodes_iff :
    m.HasListedCodes ↔ m.HasReadableSchema ∧ m.HasListedTypes ∧ m.withoutMixed = m := by
  rw [withoutMixed_eq_self_iff]
  constructor
  · rintro ⟨hschema, hin, hout⟩
    refine ⟨fun schema hmem => .inr (hschema schema hmem), ⟨hin, hout⟩, ?_⟩
    rintro schema hmem hcode
    have hlisted := hschema schema hmem
    rw [Schema.IsListed, hcode] at hlisted
    exact not_isListed_mixed hlisted
  · rintro ⟨hschema, ⟨hin, hout⟩, hnot⟩
    exact ⟨fun schema hmem => (hschema schema hmem).resolve_left (hnot schema hmem), hin, hout⟩

/-! ### Refusals -/

/-- A schema with a code that cannot be read is refused. -/
theorem stops_scanSchema (h : ¬m.HasReadableSchema) :
    Scan.Stops scanSchema (LittleEndian.encode 2 m.schemaCode.toNat)
      (.invalidSchema m.schemaCode) := by
  obtain ⟨schema, hschema, hnot⟩ : ∃ schema, m.schema = some schema ∧
      ¬(schema.code = Schema.mixedCode ∨ schema.IsListed) := by
    simpa [HasReadableSchema, not_or] using h
  rw [not_or] at hnot
  have hcode : m.schemaCode = schema.code := by rw [schemaCode, hschema]
  refine (Scan.yields_number_encode m.schemaCode.toNat_lt).stops_nil ?_
  rw [UInt16.ofNat_toNat, hcode, if_neg hnot.1, if_neg hnot.2]
  exact Scan.stops_throw _

/-- Symbology types that are not listed are refused together. -/
theorem stops_scanSymbologyTypes (h : ¬m.HasListedTypes) :
    Scan.Stops scanSymbologyTypes [m.stypeIn.code, m.stypeOut.code]
      (.invalidSymbolTypes m.stypeIn.code m.stypeOut.code) := by
  refine (yields_byte m.stypeIn.code).stops ((yields_byte m.stypeOut.code).stops_nil ?_)
  rw [UInt8.ofNat_toNat, UInt8.ofNat_toNat]
  dsimp only
  rw [if_neg (by exact h)]
  exact Scan.stops_throw _

/-- The schema is read whatever the symbology types are. -/
theorem yields_scanSchema_of_readable (hschema : m.HasReadableSchema) :
    Scan.Yields scanSchema (LittleEndian.encode 2 m.schemaCode.toNat) m.withoutMixed.schema := by
  -- Other symbology types make no difference here, so listed ones are put in their place.
  have hnative : SymbologyType.native.IsListed := by decide
  have hlisted : HasListedCodes { m.withoutMixed with stypeIn := .native, stypeOut := .native } :=
    ⟨listed_withoutMixed hschema, hnative, hnative⟩
  have hyields := yields_scanSchema hlisted
  rw [← schemaCode_withoutMixed]
  exact hyields

/-- The fault of metadata with codes that cannot be read, the schema being judged first. -/
inductive Refuses (m : Metadata) : Fault → Prop
  /-- The schema cannot be read. -/
  | schema (h : ¬m.HasReadableSchema) : Refuses m (.invalidSchema m.schemaCode)
  /-- The schema can be read, but not both symbology types. -/
  | types (hschema : m.HasReadableSchema) (h : ¬m.HasListedTypes) :
    Refuses m (.invalidSymbolTypes m.stypeIn.code m.stypeOut.code)

/-- One of the codes is at fault if not all of them can be read. -/
theorem exists_refuses (h : ¬(m.HasReadableSchema ∧ m.HasListedTypes)) :
    ∃ fault, m.Refuses fault ∧ fault.kind = .invalidMetadata := by
  by_cases hschema : m.HasReadableSchema
  · exact ⟨_, .types hschema fun htypes => h ⟨hschema, htypes⟩, rfl⟩
  · exact ⟨_, .schema hschema, rfl⟩

/-- The frame is not read beyond the code that is refused. -/
theorem Refuses.stops_scanFrame {fault : Fault} (h : m.Refuses fault) {frame : Bytes}
    (hframe : m.encodeFrame = .ok frame) : Scan.Stops (scanFrame m.version) frame fault := by
  obtain ⟨dataset, symbols, partialSymbols, notFound, mappings, hdataset, -, -, -, -, rfl⟩ :=
    parts_of_encodeFrame hframe
  obtain ⟨hfits, rfl⟩ := FixedText.encode_eq_ok_iff.mp hdataset
  have hdataset := Scan.yields_text (FixedText.length_pad hfits)
  -- The codes and the flag are written as one stretch and read in two steps.
  have hflags : [m.stypeIn.code, m.stypeOut.code, if m.tsOut then 1 else 0] =
      [m.stypeIn.code, m.stypeOut.code] ++ [if m.tsOut then 1 else 0] := rfl
  rw [fixedFields, hflags]
  simp only [List.append_assoc]
  cases h with
  | schema hnot =>
    exact hdataset.stops (((stops_scanSchema hnot).bind _).append _)
  | types hschema hnot =>
    exact hdataset.stops ((yields_scanSchema_of_readable hschema).stops
      ((yields_scanTotals m).stops (((stops_scanSymbologyTypes hnot).bind _).append _)))

/-- **An unlisted code is written and then refused**, whatever follows the block. -/
theorem parse_append_of_encode_eq_error {fault : Fault} (hrefuses : m.Refuses fault)
    (h : m.encode = .ok block) (rest : Bytes) : parse (block ++ rest) = .error fault := by
  obtain ⟨frame, hframe, hmax, hversion, rfl⟩ := frame_of_encode h
  have hstops := hrefuses.stops_scanFrame hframe
  rw [hversion] at hstops
  obtain ⟨touches, hparse⟩ :=
    exists_parse_blockOf_append (minFrameSize_le_of_encodeFrame hframe) hmax rest
  obtain ⟨last, hrun⟩ := hstops ⟨_, prologueSize, prologueSize + frame.length, touches⟩ rest
    rfl (Nat.le_refl _)
  exact hparse.trans (congrArg Prod.fst hrun)

/-! ### What comes back -/

/-- Metadata with readable codes comes back without what the format has no form for. -/
theorem parse_append_of_encode_eq_ok (hschema : m.HasReadableSchema) (htypes : m.HasListedTypes)
    (h : m.encode = .ok block) (rest : Bytes) : parse (block ++ rest) = .ok m.asRead := by
  have hlisted : m.withoutMixed.HasListedCodes :=
    ⟨listed_withoutMixed hschema, htypes.1, htypes.2⟩
  exact parse_append_of_encode hlisted ((encode_withoutMixed m).trans h) rest

/-- The answer to metadata that was written. -/
structure ReadsBack (m : Metadata) (answer : Except Fault Metadata) : Prop where
  /-- With readable codes it comes back without what the format has no form for. -/
  ok : m.HasReadableSchema ∧ m.HasListedTypes → answer = .ok m.asRead
  /-- Otherwise it is refused for the first code that cannot be read. -/
  error : ¬(m.HasReadableSchema ∧ m.HasListedTypes) →
    ∃ fault, answer = .error fault ∧ m.Refuses fault ∧ fault.kind = .invalidMetadata
  /-- It comes back as it was when its codes are listed, no text holds a NUL, and neither the end nor
  the limit is one that stands for none. -/
  self : answer = .ok m ↔ m.HasListedCodes ∧ (∀ text ∈ m.texts, 0 ∉ text) ∧
    m.endTs ≠ some noEndTs ∧ m.limit ≠ some 0

theorem readsBack_parse (h : m.encode = .ok block) (rest : Bytes) :
    m.ReadsBack (parse (block ++ rest)) := by
  have herror : ¬(m.HasReadableSchema ∧ m.HasListedTypes) →
      ∃ fault, parse (block ++ rest) = .error fault ∧ m.Refuses fault ∧
        fault.kind = .invalidMetadata := by
    intro hcodes
    obtain ⟨fault, hrefuses, hkind⟩ := exists_refuses hcodes
    exact ⟨fault, parse_append_of_encode_eq_error hrefuses h rest, hrefuses, hkind⟩
  refine ⟨fun hcodes => parse_append_of_encode_eq_ok hcodes.1 hcodes.2 h rest, herror, ?_⟩
  rw [hasListedCodes_iff, ← normalize_eq_self_iff]
  by_cases hcodes : m.HasReadableSchema ∧ m.HasListedTypes
  · rw [parse_append_of_encode_eq_ok hcodes.1 hcodes.2 h rest, Except.ok.injEq, asRead_eq_self_iff]
    simp only [hcodes.1, hcodes.2, true_and]
  · obtain ⟨fault, hparse, -⟩ := herror hcodes
    rw [hparse]
    refine ⟨nofun, ?_⟩
    rintro ⟨⟨hschema, htypes, -⟩, -⟩
    exact absurd ⟨hschema, htypes⟩ hcodes

/-- **What is read of everything that can be written.** Metadata is refused by the writer for its
version, an overlong text or the length of its frame, and for nothing else. All other metadata is
written, and then it is read back, refused or changed as its codes, texts, end and limit have it. -/
theorem encode_reads_back (m : Metadata) :
    (¬m.IsWritable → ∃ fault, m.encode = .error fault) ∧
      (m.IsWritable → ∃ block, m.encode = .ok block ∧
        ∀ rest, m.ReadsBack (parse (block ++ rest))) := by
  constructor
  · intro h
    obtain ⟨fault, hfault, -⟩ := exists_encode_eq_error h
    exact ⟨fault, hfault⟩
  · intro h
    obtain ⟨frame, hencode, -⟩ := exists_encode_of_isWritable h
    exact ⟨blockOf frame, hencode, readsBack_parse hencode⟩

/-- The block of metadata without texts and totals, whose schema has the code of the given bytes. -/
def bareBlock (low high : UInt8) : Bytes :=
  blockOf (List.replicate datasetWidth 0 ++ [low, high] ++ List.replicate 8 0 ++
    List.replicate 8 0xFF ++ List.replicate 16 0 ++ [1, 0, 0] ++ List.replicate 67 0)

/-- A schema that is not listed is written and not read, and a limit that stands for none is written
and lost. -/
theorem encode_unlisted :
    encode { schema := some ⟨13⟩ } = .ok (bareBlock 13 0) ∧
      parse (bareBlock 13 0) = .error (.invalidSchema 13) ∧
      encode { limit := some 0 } = .ok (bareBlock 0xFF 0xFF) ∧
      parse (bareBlock 0xFF 0xFF) = .ok {} := by
  refine ⟨?_, ?_, ?_, ?_⟩ <;> decide +kernel

end Metadata

end MarketWire
