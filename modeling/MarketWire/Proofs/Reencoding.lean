import MarketWire.Proofs.BlockAcceptance

/-!
# Writing what was read

Reading is laxer than writing. A field may hold a text without a NUL, or garbage behind its first NUL,
the reserved bytes may hold anything, and a frame may go on behind its last mapping. Of all this only
the text without a NUL is in the metadata that is read, and such metadata cannot be written. The rest
is lost: what is written has been cleaned of it, is no longer than the block that was read, and says
the same. So a block comes back byte for byte exactly if it was clean.

A kind of section is cleaned field by field. The law for it is proved for a single field first, and
goes over to lists, mappings and all sections.

## Main definitions

* `FixedText.IsClean` — nothing but NULs stands behind the text of a field.
* `Metadata.Rewrites` — a kind of section is written again without its garbage, if its texts can be.
* `Metadata.Sections.clean` — sections without garbage.

## Main results

* `Metadata.Rewrites.list` — the law goes over to lists.
* `Metadata.encode_of_parse` — **what comes back of a block that was read**.
-/

namespace MarketWire

/-! ### Steps that refuse their argument -/

/-- The step gives the value if the condition holds, and refuses its argument otherwise. -/
structure GivesIff {α : Type} (step : Except Fault α) (condition : Prop) (a : α) : Prop where
  /-- Under the condition the step succeeds. -/
  ok : condition → step = .ok a
  /-- Without it the step fails. -/
  error : ¬condition → ∃ fault, step = .error fault ∧ fault.kind = .invalidArgument

namespace GivesIff

variable {α β : Type} {step : Except Fault α} {p q : Prop} {a : α} {b : β}

theorem congr (h : GivesIff step p a) (hpq : q ↔ p) : GivesIff step q a :=
  ⟨fun hq => h.ok (hpq.mp hq), fun hq => h.error fun hp => hq (hpq.mpr hp)⟩

/-- Success needs the condition. -/
theorem of_eq_ok (h : GivesIff step p a) {given : α} (hstep : step = .ok given) : p ∧ given = a := by
  by_cases hp : p
  · exact ⟨hp, Except.ok.inj (hstep.symm.trans (h.ok hp))⟩
  · obtain ⟨fault, hfault, -⟩ := h.error hp
    cases hstep.symm.trans hfault

/-- The step fails for want of the condition, and in no other way. -/
theorem of_eq_error (h : GivesIff step p a) {fault : Fault} (hstep : step = .error fault) :
    ¬p ∧ fault.kind = .invalidArgument := by
  by_cases hp : p
  · cases hstep.symm.trans (h.ok hp)
  · obtain ⟨other, hother, hkind⟩ := h.error hp
    cases hstep.symm.trans hother
    exact ⟨hp, hkind⟩

/-- A step after another one. -/
theorem bind {next : α → Except Fault β} (hstep : GivesIff step p a) (hnext : GivesIff (next a) q b) :
    GivesIff (step >>= next) (p ∧ q) b := by
  constructor
  case ok =>
    rintro ⟨hp, hq⟩
    rw [hstep.ok hp]
    exact hnext.ok hq
  case error =>
    intro hpq
    by_cases hp : p
    · rw [hstep.ok hp]
      exact hnext.error fun hq => hpq ⟨hp, hq⟩
    · obtain ⟨fault, hfault, hkind⟩ := hstep.error hp
      exact ⟨fault, by rw [hfault]; rfl, hkind⟩

/-- The last step may work on the value. -/
theorem map (h : GivesIff step p a) (f : α → β) :
    GivesIff (step >>= fun a => Pure.pure (f a)) p (f a) := by
  have hpure : GivesIff (Pure.pure (f a) : Except Fault β) True (f a) :=
    ⟨fun _ => rfl, fun hno => absurd trivial hno⟩
  exact (h.bind hpure).congr (and_true p).symm.to_iff

end GivesIff

/-! ### Fields -/

namespace FixedText

variable {width : Nat} {bs : Bytes}

/-- Nothing but NULs stands behind the text of a field. -/
def IsClean (bs : Bytes) : Prop :=
  ∀ b ∈ bs.dropWhile (· != 0), b = 0

theorem decode_append_dropWhile (bs : Bytes) : decode bs ++ bs.dropWhile (· != 0) = bs :=
  List.takeWhile_append_dropWhile

theorem length_pad_decode (h : bs.length = width) : (pad width (decode bs)).length = width := by
  have hle : (decode bs).length ≤ width := h ▸ Text.length_upToNul_le bs
  rw [pad, List.length_append, List.length_replicate]
  omega

/-- The text of a field fits into it again exactly if a NUL ends it. -/
theorem fits_decode_iff (h : bs.length = width) : Fits width (decode bs) ↔ 0 ∈ bs := by
  have hsplit := decode_append_dropWhile bs
  have hlength := congrArg List.length hsplit
  rw [List.length_append, h] at hlength
  rw [Fits]
  constructor
  · intro hfits
    by_contra hmem
    rw [decode, Text.upToNul_eq_self_iff.mpr hmem] at hfits
    omega
  · intro hmem
    by_contra hfits
    rw [List.length_eq_zero_iff.mp (by omega : (bs.dropWhile (· != 0)).length = 0),
      List.append_nil] at hsplit
    exact Text.upToNul_eq_self_iff.mp hsplit hmem

/-- A field that is filled up behind its text is the same field exactly if it was clean. -/
theorem pad_decode_eq_self_iff (h : bs.length = width) : pad width (decode bs) = bs ↔ IsClean bs := by
  have hsplit := decode_append_dropWhile bs
  have hlength := congrArg List.length hsplit
  rw [List.length_append, h] at hlength
  have hpad : width - (decode bs).length = (bs.dropWhile (· != 0)).length := by omega
  calc pad width (decode bs) = bs
      ↔ decode bs ++ List.replicate (bs.dropWhile (· != 0)).length 0 =
          decode bs ++ bs.dropWhile (· != 0) := by rw [pad, hpad, hsplit]
    _ ↔ bs.dropWhile (· != 0) = List.replicate (bs.dropWhile (· != 0)).length 0 := by
        rw [List.append_cancel_left_eq, eq_comm]
    _ ↔ IsClean bs := by rw [List.eq_replicate_iff, IsClean, and_iff_right rfl]

end FixedText

namespace FixedBytes

variable {width : Nat}

/-- The field with NULs behind its text. -/
def clean (field : FixedBytes width) : FixedBytes width :=
  ⟨FixedText.pad width (FixedText.decode field.1), FixedText.length_pad_decode field.2⟩

theorem clean_eq_self_iff (field : FixedBytes width) :
    field.clean = field ↔ FixedText.IsClean field.1 :=
  Subtype.ext_iff.trans (FixedText.pad_decode_eq_self_iff field.2)

theorem decode_clean (field : FixedBytes width) :
    FixedText.decode field.clean.1 = FixedText.decode field.1 :=
  (FixedText.decode_pad ..).trans (Text.upToNul_eq_self_iff.mpr (Text.zero_notMem_upToNul _))

end FixedBytes

namespace CountedList

variable {σ τ : Type}

/-- The list with every element mapped. -/
def map (f : σ → τ) (cs : CountedList σ) : CountedList τ :=
  ⟨cs.1.map f, by rw [List.length_map]; exact cs.2⟩

theorem map_eq_self_iff {f : σ → σ} {cs : CountedList σ} :
    cs.map f = cs ↔ ∀ c ∈ cs.1, f c = c :=
  Subtype.ext_iff.trans MarketWire.map_eq_self_iff

end CountedList

namespace Metadata

/-! ### Cleaning -/

/-- The text fields of an interval. -/
def IntervalSection.fields (i : IntervalSection) : List Bytes :=
  [i.symbol.1]

/-- An interval without garbage. -/
def IntervalSection.clean (i : IntervalSection) : IntervalSection :=
  { i with symbol := i.symbol.clean }

/-- The text fields of a mapping. -/
def MappingSection.fields (m : MappingSection) : List Bytes :=
  m.nativeSymbol.1 :: m.intervals.1.flatMap IntervalSection.fields

/-- A mapping without garbage. -/
def MappingSection.clean (m : MappingSection) : MappingSection where
  nativeSymbol := m.nativeSymbol.clean
  intervals := m.intervals.map IntervalSection.clean

/-- The text fields of all sections. -/
def Sections.fields (s : Sections) : List Bytes :=
  s.dataset.1 :: (s.symbols.1.map (·.1) ++ s.partialSymbols.1.map (·.1) ++ s.notFound.1.map (·.1) ++
    s.mappings.1.flatMap MappingSection.fields)

/-- All sections without garbage, and with zeros for the reserved bytes. -/
def Sections.clean (s : Sections) : Sections :=
  { s with
    dataset := s.dataset.clean
    reserved := ⟨List.replicate reservedSize 0, List.length_replicate⟩
    symbols := s.symbols.map FixedBytes.clean
    partialSymbols := s.partialSymbols.map FixedBytes.clean
    notFound := s.notFound.map FixedBytes.clean
    mappings := s.mappings.map MappingSection.clean }

/-! ### The law -/

section Law

variable {α σ : Type} {encode : α → Except Fault Bytes} {write : σ → Bytes} {read : σ → α}
  {fields : σ → List Bytes} {clean : σ → σ}

/-- What was read from a section is written again as a clean section, if a NUL ends each of its
texts, and cannot be written otherwise. Cleaning is not seen in what is read, and leaves alone what
is clean. -/
structure Rewrites (encode : α → Except Fault Bytes) (write : σ → Bytes) (read : σ → α)
    (fields : σ → List Bytes) (clean : σ → σ) : Prop where
  /-- What is written. -/
  gives : ∀ c, GivesIff (encode (read c)) (∀ field ∈ fields c, 0 ∈ field) (write (clean c))
  /-- A clean section says the same. -/
  read_clean : ∀ c, read (clean c) = read c
  /-- A clean section is as long. -/
  length_clean : ∀ c, (write (clean c)).length = (write c).length
  /-- A section is clean if its fields are. -/
  clean_eq_self_iff : ∀ c, clean c = c ↔ ∀ field ∈ fields c, FixedText.IsClean field

/-- The law for a text field. -/
theorem rewrites_text (name : Text) (width : Nat) :
    Rewrites (FixedText.encode name width) (fun field : FixedBytes width => field.1)
      (fun field => FixedText.decode field.1) (fun field => [field.1]) FixedBytes.clean := by
  constructor
  case gives =>
    intro field
    simp only [List.forall_mem_singleton, ← FixedText.fits_decode_iff field.2]
    exact ⟨fun hfits => if_pos hfits, fun hfits => ⟨_, if_neg hfits, rfl⟩⟩
  case read_clean => exact FixedBytes.decode_clean
  case length_clean => exact fun field => field.clean.2.trans field.2.symm
  case clean_eq_self_iff =>
    intro field
    rw [List.forall_mem_singleton]
    exact field.clean_eq_self_iff

theorem Rewrites.gives_row (h : Rewrites encode write read fields clean) (cs : List σ) :
    GivesIff (concatEncoded encode (cs.map read)) (∀ field ∈ cs.flatMap fields, 0 ∈ field)
      ((cs.map clean).flatMap write) := by
  induction cs with
  | nil => exact ⟨fun _ => rfl, fun hno => absurd nofun hno⟩
  | cons c cs ih =>
    refine ((h.gives c).bind (ih.map _)).congr ?_
    rw [List.flatMap_cons, List.forall_mem_append]

theorem Rewrites.length_row (h : Rewrites encode write read fields clean) (cs : List σ) :
    ((cs.map clean).flatMap write).length = (cs.flatMap write).length := by
  induction cs with
  | nil => rfl
  | cons c cs ih =>
    rw [List.map_cons, List.flatMap_cons, List.flatMap_cons, List.length_append, List.length_append,
      h.length_clean, ih]

/-- **The law goes over to lists.** -/
theorem Rewrites.list (h : Rewrites encode write read fields clean) :
    Rewrites (encodeList encode) (CountedList.toBytes write) (fun cs => cs.1.map read)
      (fun cs => cs.1.flatMap fields) (CountedList.map clean) := by
  constructor
  case gives =>
    intro cs
    have hlength : (cs.1.map read).length = (cs.map clean).1.length := by
      rw [CountedList.map, List.length_map, List.length_map]
    rw [encodeList, hlength]
    exact (h.gives_row cs.1).map _
  case read_clean =>
    intro cs
    simp only [CountedList.map, List.map_map, Function.comp_def, h.read_clean]
  case length_clean =>
    intro cs
    simp only [CountedList.toBytes, CountedList.map, List.length_append, LittleEndian.length_encode,
      h.length_row]
  case clean_eq_self_iff =>
    intro cs
    simp only [CountedList.map_eq_self_iff, h.clean_eq_self_iff, List.forall_mem_flatMap]

end Law

/-- The law for an interval. -/
theorem rewrites_interval :
    Rewrites encodeInterval IntervalSection.toBytes IntervalSection.contents IntervalSection.fields
      IntervalSection.clean := by
  have hsymbol := rewrites_text (Text.ofAscii "mapped symbol") symbolWidth
  constructor
  case gives => exact fun i => (hsymbol.gives i.symbol).map _
  case read_clean =>
    intro i
    rw [IntervalSection.contents, IntervalSection.clean, hsymbol.read_clean]
    rfl
  case length_clean => exact fun i => i.clean.length_toBytes.trans i.length_toBytes.symm
  case clean_eq_self_iff =>
    intro i
    rw [IntervalSection.fields, ← hsymbol.clean_eq_self_iff]
    cases i
    simp [IntervalSection.clean]

/-- The law for a mapping. -/
theorem rewrites_mapping :
    Rewrites encodeMapping MappingSection.toBytes MappingSection.contents MappingSection.fields
      MappingSection.clean := by
  have hsymbol := rewrites_text (Text.ofAscii "native symbol") symbolWidth
  have hintervals := rewrites_interval.list
  constructor
  case gives =>
    intro m
    refine ((hsymbol.gives m.nativeSymbol).bind ((hintervals.gives m.intervals).map _)).congr ?_
    rw [MappingSection.fields, List.forall_mem_cons, List.forall_mem_singleton]
  case read_clean =>
    intro m
    have hlist := hintervals.read_clean m.intervals
    rw [MappingSection.contents, MappingSection.clean, hsymbol.read_clean, hlist]
    rfl
  case length_clean =>
    intro m
    rw [MappingSection.toBytes, MappingSection.toBytes, List.length_append, List.length_append]
    exact congr (congrArg _ (hsymbol.length_clean _)) (hintervals.length_clean _)
  case clean_eq_self_iff =>
    intro m
    rw [MappingSection.fields, List.forall_mem_cons, ← hintervals.clean_eq_self_iff,
      ← FixedBytes.clean_eq_self_iff]
    cases m
    simp [MappingSection.clean]

/-- The law for a list of symbols. -/
theorem rewrites_symbols (name : String) :
    Rewrites (encodeList (encodeSymbol name)) symbolsToBytes symbolsContents
      (fun symbols => symbols.1.map (·.1)) (CountedList.map FixedBytes.clean) := by
  have hlist := (rewrites_text (Text.ofAscii name) symbolWidth).list
  simp only [← List.map_eq_flatMap] at hlist
  exact hlist

/-- The law for the list of mappings. -/
theorem rewrites_mappings :
    Rewrites (encodeList encodeMapping) (CountedList.toBytes MappingSection.toBytes)
      (fun mappings => mappings.1.map MappingSection.contents)
      (fun mappings => mappings.1.flatMap MappingSection.fields)
      (CountedList.map MappingSection.clean) :=
  rewrites_mapping.list

/-! ### Frames -/

theorem schemaCode_contents (s : Sections) : s.contents.schemaCode = s.schema.1 := by
  have hschema : s.contents.schema = schemaOfCode s.schema := rfl
  rw [schemaCode, hschema, schemaOfCode]
  by_cases hmixed : s.schema.1 = Schema.mixedCode
  · rw [if_pos hmixed, hmixed]
  · rw [if_neg hmixed]

theorem totals_contents (s : Sections) : s.contents.totals.toBytes = s.totals.toBytes := by
  have hend : s.totals.contents.endTs.getD noEndTs = s.totals.endTs := by
    by_cases h : s.totals.endTs = noEndTs <;> simp [TotalsSection.contents, h]
  have hlimit : s.totals.contents.limit.getD 0 = s.totals.limit := by
    by_cases h : s.totals.limit = 0 <;> simp [TotalsSection.contents, h]
  have htotals : s.contents.totals = s.totals.contents := rfl
  rw [htotals, Totals.toBytes, hend, hlimit]
  rfl

theorem tsOut_contents (s : Sections) : (if s.contents.tsOut then 1 else 0) = s.tsOut.1 := by
  change (if decide (s.tsOut.1 = 1) then 1 else 0) = s.tsOut.1
  obtain ⟨b, hb⟩ := s.tsOut
  have hbit : b = 0 ∨ b = 1 := by
    have hle : b.toNat ≤ 1 := hb
    rcases Nat.le_one_iff_eq_zero_or_eq_one.mp hle with h | h
    · exact .inl (UInt8.toNat.inj h)
    · exact .inr (UInt8.toNat.inj h)
  rcases hbit with rfl | rfl <;> rfl

/-- The fixed fields come back as they were, up to the reserved bytes. -/
theorem fixedFields_contents (s : Sections) :
    s.contents.fixedFields = LittleEndian.encode 2 s.schema.1.toNat ++ s.totals.toBytes ++
      [s.stypeIn.1.code, s.stypeOut.1.code, s.tsOut.1] ++ List.replicate reservedSize 0 ++
      LittleEndian.encode 4 0 := by
  rw [fixedFields, schemaCode_contents, totals_contents, tsOut_contents]
  rfl

/-- The law for a frame, as far as writing goes. -/
theorem gives_encodeFrame (s : Sections) :
    GivesIff s.contents.encodeFrame (∀ field ∈ s.fields, 0 ∈ field) s.clean.toBytes := by
  have hdataset := (rewrites_text (Text.ofAscii "dataset") datasetWidth).gives s.dataset
  have hsymbols := (rewrites_symbols "symbol").gives s.symbols
  have hpartial := (rewrites_symbols "partial symbol").gives s.partialSymbols
  have hnotFound := (rewrites_symbols "not found symbol").gives s.notFound
  have hmappings := rewrites_mappings.gives s.mappings
  have hframe : GivesIff s.contents.encodeFrame _ (s.dataset.clean.1 ++ s.contents.fixedFields ++
      symbolsToBytes s.clean.symbols ++ symbolsToBytes s.clean.partialSymbols ++
      symbolsToBytes s.clean.notFound ++ s.clean.mappings.toBytes MappingSection.toBytes) :=
    hdataset.bind (hsymbols.bind (hpartial.bind (hnotFound.bind (hmappings.map _))))
  have hbytes : s.dataset.clean.1 ++ s.contents.fixedFields = s.clean.dataset.1 ++
      LittleEndian.encode 2 s.clean.schema.1.toNat ++ s.clean.totals.toBytes ++
      [s.clean.stypeIn.1.code, s.clean.stypeOut.1.code, s.clean.tsOut.1] ++ s.clean.reserved.1 ++
      LittleEndian.encode 4 0 := by
    rw [fixedFields_contents]
    simp only [Sections.clean, List.append_assoc]
  rw [hbytes] at hframe
  refine hframe.congr ?_
  rw [Sections.fields, List.forall_mem_cons, List.forall_mem_append, List.forall_mem_append,
    List.forall_mem_append, List.forall_mem_singleton, and_assoc, and_assoc]

theorem Sections.contents_clean (s : Sections) : s.clean.contents = s.contents := by
  have hsymbols := (rewrites_symbols "symbol").read_clean
  rw [contents, contents]
  simp only [clean, hsymbols, rewrites_mappings.read_clean, FixedBytes.decode_clean]
  rfl

theorem Sections.length_clean (s : Sections) : s.clean.toBytes.length = s.toBytes.length := by
  have hsymbols := (rewrites_symbols "symbol").length_clean
  simp only [toBytes, clean, List.length_append, hsymbols, rewrites_mappings.length_clean,
    s.dataset.2, s.dataset.clean.2, s.reserved.2, List.length_replicate]

/-- Sections are clean if the reserved bytes are zeros and all fields are clean. -/
theorem Sections.clean_eq_self_iff (s : Sections) :
    s.clean = s ↔ (∀ b ∈ s.reserved.1, b = 0) ∧ ∀ field ∈ s.fields, FixedText.IsClean field := by
  have hsymbols := (rewrites_symbols "symbol").clean_eq_self_iff
  have hreserved : (⟨List.replicate reservedSize 0, List.length_replicate⟩ : FixedBytes reservedSize) =
      s.reserved ↔ ∀ b ∈ s.reserved.1, b = 0 := by
    rw [Subtype.ext_iff, eq_comm, List.eq_replicate_iff, and_iff_right s.reserved.2]
  rw [fields, List.forall_mem_cons, List.forall_mem_append, List.forall_mem_append,
    List.forall_mem_append, ← hsymbols, ← hsymbols, ← hsymbols, ← rewrites_mappings.clean_eq_self_iff,
    ← FixedBytes.clean_eq_self_iff, ← hreserved]
  cases s
  simp [clean]
  tauto

/-! ### Blocks -/

/-- The law for a block, as far as writing goes. -/
theorem gives_encode {s : Sections} (hmax : s.toBytes.length ≤ maxFrameSize) :
    GivesIff s.contents.encode (∀ field ∈ s.fields, 0 ∈ field) (blockOf s.clean.toBytes) := by
  have hframe := gives_encodeFrame s
  have hversion : s.contents.version = formatVersion := rfl
  have hlength := s.length_clean
  -- Cleaning keeps the length, so a frame that could be read is not too long to be written.
  rw [encode, hversion, if_neg (by simp)]
  constructor
  case ok =>
    intro hended
    rw [hframe.ok hended]
    exact if_neg (by omega)
  case error =>
    intro hended
    obtain ⟨fault, hfault, hkind⟩ := hframe.error hended
    exact ⟨fault, by rw [hfault]; rfl, hkind⟩

/-- A clean block is the block that it was made of exactly if that was clean and ended with its last
mapping. -/
theorem blockOf_clean_eq_iff {s : Sections} {leftover : Bytes}
    (hmax : (s.toBytes ++ leftover).length ≤ maxFrameSize) :
    blockOf s.clean.toBytes = blockOf (s.toBytes ++ leftover) ↔ s.clean = s ∧ leftover = [] := by
  constructor
  · intro h
    have hclean : s.clean.toBytes.length ≤ maxFrameSize := by
      rw [List.length_append] at hmax
      rw [s.length_clean]
      omega
    have hblock : blockOf s.clean.toBytes ++ [] = blockOf (s.toBytes ++ leftover) ++ [] := by rw [h]
    obtain ⟨hframe, -⟩ := blockOf_append_inj hclean hmax hblock
    -- Both frames begin with sections, and those are told by the bytes.
    rw [← List.append_nil s.clean.toBytes] at hframe
    have hself : s.clean = s := recognizes_scanFrame.unique hframe
    rw [hself] at hframe
    exact ⟨hself, (List.append_cancel_left hframe).symm⟩
  · rintro ⟨hself, rfl⟩
    rw [hself, List.append_nil]

/-- **What comes back of a block that was read.** Metadata that was read from a block can be written
again exactly if every text field of the block holds a NUL, and is refused as an invalid argument
otherwise. What is written is no longer than the block and says the same. It is the block itself
exactly if its reserved bytes are zeros, nothing but NULs stands behind the text of any field, and
the frame ends with its last mapping. -/
theorem encode_of_parse {bs : Bytes} {m : Metadata} (h : parse bs = .ok m) :
    ∃ s leftover, IsBlock bs s leftover ∧ s.contents = m ∧
      (∀ t leftover', IsBlock bs t leftover' → t = s ∧ leftover' = leftover) ∧
      ((∃ fault, m.encode = .error fault) ↔ ∃ field ∈ s.fields, 0 ∉ field) ∧
      (∀ fault, m.encode = .error fault → fault.kind = .invalidArgument) ∧
      ∀ block, m.encode = .ok block →
        parse block = .ok m ∧
        block.length ≤ prologueSize + (s.toBytes ++ leftover).length ∧
        (block = bs.take (prologueSize + (s.toBytes ++ leftover).length) ↔
          (∀ b ∈ s.reserved.1, b = 0) ∧ (∀ field ∈ s.fields, FixedText.IsClean field) ∧
            leftover = []) := by
  obtain ⟨s, leftover, hblock, rfl⟩ := exists_isBlock_of_parse h
  have hmax : s.toBytes.length ≤ maxFrameSize := by
    have hframe := hblock.length_le
    rw [List.length_append] at hframe
    omega
  have hgives := gives_encode hmax
  refine ⟨s, leftover, hblock, rfl, fun t leftover' hother => hother.unique hblock, ?fails,
    fun fault hfault => (hgives.of_eq_error hfault).2, ?gives⟩
  case fails =>
    constructor
    · rintro ⟨fault, hfault⟩
      obtain ⟨hended, -⟩ := hgives.of_eq_error hfault
      by_contra hnone
      exact hended fun field hfield => by_contra fun hnul => hnone ⟨field, hfield, hnul⟩
    · rintro ⟨field, hfield, hnul⟩
      obtain ⟨fault, hfault, -⟩ := hgives.error fun hended => hnul (hended field hfield)
      exact ⟨fault, hfault⟩
  case gives =>
    intro block hencode
    obtain ⟨-, rfl⟩ := hgives.of_eq_ok hencode
    have hclean : IsBlock (blockOf s.clean.toBytes) s.clean [] := by
      constructor
      case length_le => rwa [List.append_nil, s.length_clean]
      case isPrefix => simp only [List.append_nil, List.prefix_rfl]
    have htake : bs.take (prologueSize + (s.toBytes ++ leftover).length) =
        blockOf (s.toBytes ++ leftover) := by
      rw [← length_blockOf]
      exact (List.prefix_iff_eq_take.mp hblock.isPrefix).symm
    refine ⟨?_, ?_, ?_⟩
    · rw [hclean.parse_eq, s.contents_clean]
    · rw [length_blockOf, s.length_clean, List.length_append]
      omega
    · rw [htake, blockOf_clean_eq_iff hblock.length_le, s.clean_eq_self_iff, and_assoc]

/-- A block with garbage behind the text of its dataset and a byte behind its last mapping. -/
def garbledBlock : Bytes :=
  blockOf ([0x44, 0, 0x45] ++ List.replicate 117 0 ++ [7])

theorem encode_of_parse_garbledBlock :
    ∃ m block, parse garbledBlock = .ok m ∧ m.encode = .ok block ∧ parse block = .ok m ∧
      block ≠ garbledBlock := by
  have hparse : parse garbledBlock = .ok
      { dataset := [0x44], schema := some ⟨0⟩, endTs := some 0, stypeIn := ⟨0⟩,
        stypeOut := ⟨0⟩ } := by
    decide +kernel
  have hencode : Metadata.encode
      { dataset := [0x44], schema := some ⟨0⟩, endTs := some 0, stypeIn := ⟨0⟩, stypeOut := ⟨0⟩ } =
        .ok (blockOf ([0x44] ++ List.replicate 119 0)) := by
    decide +kernel
  obtain ⟨s, leftover, -, -, -, -, -, hgives⟩ := encode_of_parse hparse
  exact ⟨_, _, hparse, hencode, (hgives _ hencode).1, by decide +kernel⟩

end Metadata

end MarketWire
