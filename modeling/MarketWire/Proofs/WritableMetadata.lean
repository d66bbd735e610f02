import MarketWire.Proofs.MetadataRoundTrip

/-!
# Which metadata can be written

Metadata is written completely or not at all. It can be written if it is of the one version, every
text leaves room for the NUL that ends it, and the length of the frame can be told in four bytes.
The size of the block can be told without writing it: it depends on the lengths of the lists only.

A refusal names what is at fault. The texts are judged in the order of the format, so with the
version in order the fault names the first text that is too long, wherever in the five nested lists
that is, and only if there is none can the size of the frame be at fault.

A writer is described by the texts that it judges and by what holds of the bytes that it gives. The
texts of writers one after another stand one after another, and so the first one that is too long is
found by the first writer that has one.

## Main definitions

* `TextField`, `Metadata.textFields` — a text with its field, and those of metadata in order.
* `Judges` — a writer refuses the first text that is too long, and nothing else.
* `Metadata.IsWritable` — what can be written.

## Main results

* `Judges.bind`, `Metadata.judges_encodeList` — texts are judged one after another.
* `Metadata.encodeOnto_all_or_nothing` — **metadata is written completely or not at all**.
-/

namespace MarketWire

/-! ### Texts in their fields -/

/-- A text that is to be written into a field. -/
structure TextField where
  /-- What the field is called. -/
  name : String
  /-- The width of the field. -/
  width : Nat
  /-- The text. -/
  text : Text

/-- The text leaves no room for the NUL that ends it. -/
def TextField.IsOverlong (f : TextField) : Prop :=
  f.width ≤ f.text.length

instance (f : TextField) : Decidable f.IsOverlong :=
  inferInstanceAs (Decidable (f.width ≤ f.text.length))

/-- The fault of a text that is too long. -/
def TextField.fault (f : TextField) : Fault :=
  .overlongText (Text.ofAscii f.name) f.text f.width

/-- The first text that is too long. -/
def firstOverlong? (fields : List TextField) : Option TextField :=
  fields.find? fun f => f.IsOverlong

theorem firstOverlong?_append (fields more : List TextField) :
    firstOverlong? (fields ++ more) = (firstOverlong? fields).or (firstOverlong? more) :=
  List.find?_append

theorem firstOverlong?_eq_none_iff {fields : List TextField} :
    firstOverlong? fields = none ↔ ∀ f ∈ fields, f.text.length < f.width := by
  simp only [firstOverlong?, List.find?_eq_none, decide_eq_true_eq]
  exact forall₂_congr fun _ _ => Nat.not_le

/-- The texts of a list of symbols. -/
def symbolFields (name : String) (symbols : List Text) : List TextField :=
  symbols.map fun symbol => ⟨name, Metadata.symbolWidth, symbol⟩

/-- The texts of a mapping in the order of the format. -/
def SymbolMapping.textFields (m : SymbolMapping) : List TextField :=
  ⟨"native symbol", Metadata.symbolWidth, m.nativeSymbol⟩ ::
    symbolFields "mapped symbol" (m.intervals.map (·.symbol))

/-- The texts of metadata in the order of the format. -/
def Metadata.textFields (m : Metadata) : List TextField :=
  ⟨"dataset", datasetWidth, m.dataset⟩ :: (symbolFields "symbol" m.symbols ++
    symbolFields "partial symbol" m.partialSymbols ++ symbolFields "not found symbol" m.notFound ++
    m.mappings.flatMap (·.textFields))

/-! ### Writers that judge texts -/

/-- The step refuses the first text that is too long, and gives a value with the property if there
is none. -/
structure Judges {α : Type} (step : Except Fault α) (fields : List TextField)
    (property : α → Prop) : Prop where
  /-- If all texts fit the step succeeds. -/
  ok : firstOverlong? fields = none → ∃ a, step = .ok a ∧ property a
  /-- The first text that is too long is the one at fault. -/
  error : ∀ f, firstOverlong? fields = some f → step = .error f.fault

namespace Judges

variable {α β : Type} {step : Except Fault α} {fields more : List TextField} {p : α → Prop}
  {q : β → Prop}

theorem pure {a : α} (h : p a) : Judges (Pure.pure a) [] p :=
  ⟨fun _ => ⟨a, rfl, h⟩, fun _ hsome => nomatch hsome⟩

/-- **The texts of steps one after another** are judged one after another. -/
theorem bind {next : α → Except Fault β} (hstep : Judges step fields p)
    (hnext : ∀ a, p a → Judges (next a) more q) : Judges (step >>= next) (fields ++ more) q := by
  constructor
  case ok =>
    rw [firstOverlong?_append, Option.or_eq_none_iff]
    rintro ⟨hfields, hmore⟩
    obtain ⟨a, hok, ha⟩ := hstep.ok hfields
    rw [hok]
    exact (hnext a ha).ok hmore
  case error =>
    intro f hsome
    rw [firstOverlong?_append] at hsome
    cases hfields : firstOverlong? fields with
    | some g =>
      rw [hfields, Option.some_or] at hsome
      rw [hstep.error g hfields, Option.some.inj hsome]
      rfl
    | none =>
      rw [hfields, Option.none_or] at hsome
      obtain ⟨a, hok, ha⟩ := hstep.ok hfields
      rw [hok]
      exact (hnext a ha).error f hsome

/-- The last step may work on the value. -/
theorem map (h : Judges step fields p) {f : α → β} (hf : ∀ a, p a → q (f a)) :
    Judges (step >>= fun a => Pure.pure (f a)) fields q := by
  have hbind := h.bind fun a ha => pure (hf a ha)
  rwa [List.append_nil] at hbind

end Judges

theorem judges_text (name : String) (width : Nat) (text : Text) :
    Judges (FixedText.encode (Text.ofAscii name) width text) [⟨name, width, text⟩] fun bs =>
      bs.length = width := by
  have hsingle : firstOverlong? [⟨name, width, text⟩] =
      if width ≤ text.length then some ⟨name, width, text⟩ else none := by
    simp only [firstOverlong?, List.find?_singleton, decide_eq_true_eq]
    rfl
  by_cases hfits : text.length < width
  case pos =>
    rw [if_neg (Nat.not_le.mpr hfits)] at hsingle
    refine ⟨fun _ => ⟨_, if_pos hfits, FixedText.length_pad hfits⟩, fun f hsome => ?_⟩
    rw [hsingle] at hsome
    cases hsome
  case neg =>
    rw [if_pos (Nat.not_lt.mp hfits)] at hsingle
    refine ⟨fun hnone => ?_, fun f hsome => ?_⟩
    · rw [hsingle] at hnone
      cases hnone
    · rw [hsingle] at hsome
      cases hsome
      exact if_neg hfits

namespace Metadata

/-! ### Lists -/

variable {α : Type} {encode : α → Except Fault Bytes} {fields : α → List TextField} {size : α → Nat}

/-- The size of all elements. -/
def totalSize (size : α → Nat) : List α → Nat
  | [] => 0
  | a :: as => size a + totalSize size as

theorem totalSize_const (n : Nat) (as : List α) : totalSize (fun _ => n) as = n * as.length := by
  induction as with
  | nil => rfl
  | cons a as ih => rw [totalSize, ih, List.length_cons, Nat.mul_succ, Nat.add_comm]

theorem judges_concatEncoded (h : ∀ a, Judges (encode a) (fields a) fun bs => bs.length = size a)
    (as : List α) :
    Judges (concatEncoded encode as) (as.flatMap fields) fun bs =>
      bs.length = totalSize size as := by
  induction as with
  | nil => exact Judges.pure rfl
  | cons a as ih =>
    rw [List.flatMap_cons]
    refine (h a).bind fun first hfirst => ih.map fun others hothers => ?_
    rw [List.length_append, hfirst, hothers, totalSize]

/-- **The texts of a list** are judged one after another, and its size is that of its elements and
the count. -/
theorem judges_encodeList (h : ∀ a, Judges (encode a) (fields a) fun bs => bs.length = size a)
    (as : List α) :
    Judges (encodeList encode as) (as.flatMap fields) fun bs =>
      bs.length = countSize + totalSize size as := by
  refine (judges_concatEncoded h as).map fun elements helements => ?_
  rw [List.length_append, LittleEndian.length_encode, helements]

theorem judges_symbols (name : String) (symbols : List Text) :
    Judges (encodeList (encodeSymbol name) symbols) (symbolFields name symbols) fun bs =>
      bs.length = countSize + symbolWidth * symbols.length := by
  have hlist := judges_encodeList (judges_text name symbolWidth) symbols
  rw [← List.map_eq_flatMap, totalSize_const] at hlist
  exact hlist

theorem judges_interval (i : MappingInterval) :
    Judges (encodeInterval i) [⟨"mapped symbol", symbolWidth, i.symbol⟩] fun bs =>
      bs.length = intervalSize := by
  refine (judges_text "mapped symbol" symbolWidth i.symbol).map fun symbol hsymbol => ?_
  simp only [List.length_append, LittleEndian.length_encode, hsymbol, intervalSize]

theorem judges_mapping (m : SymbolMapping) :
    Judges (encodeMapping m) m.textFields fun bs =>
      bs.length = mappingSize + intervalSize * m.intervals.length := by
  have hintervals := judges_encodeList judges_interval m.intervals
  rw [← List.map_eq_flatMap, totalSize_const] at hintervals
  rw [SymbolMapping.textFields, symbolFields, List.map_map, ← List.singleton_append]
  refine (judges_text "native symbol" symbolWidth m.nativeSymbol).bind fun native hnative =>
    hintervals.map fun intervals hlength => ?_
  rw [List.length_append, hnative, hlength, mappingSize, Nat.add_assoc]

/-! ### Frames -/

/-- The number of symbols in all lists of symbols. -/
def symbolCount (m : Metadata) : Nat :=
  m.symbols.length + m.partialSymbols.length + m.notFound.length

/-- The number of intervals of all mappings. -/
def intervalCount (m : Metadata) : Nat :=
  (m.mappings.flatMap (·.intervals)).length

/-- The size of the frame that metadata takes. -/
def frameSize (m : Metadata) : Nat :=
  minFrameSize + symbolWidth * m.symbolCount + mappingSize * m.mappings.length +
    intervalSize * m.intervalCount

theorem totalSize_mappings (mappings : List SymbolMapping) :
    totalSize (fun m => mappingSize + intervalSize * m.intervals.length) mappings =
      mappingSize * mappings.length +
        intervalSize * (mappings.flatMap (·.intervals)).length := by
  induction mappings with
  | nil => rfl
  | cons m mappings ih =>
    rw [totalSize, ih, List.flatMap_cons, List.length_append, List.length_cons, Nat.mul_succ,
      Nat.mul_add]
    omega

/-- The texts of metadata are judged in the order of the format, and the size of the frame is told
by the lengths of the lists. -/
theorem judges_encodeFrame (m : Metadata) :
    Judges m.encodeFrame m.textFields fun frame => frame.length = m.frameSize := by
  have hfixed := m.length_fixedFields
  have hmappings := judges_encodeList judges_mapping m.mappings
  rw [totalSize_mappings] at hmappings
  rw [textFields, ← List.singleton_append]
  simp only [List.append_assoc]
  refine (judges_text "dataset" datasetWidth m.dataset).bind fun dataset hdataset =>
    (judges_symbols "symbol" m.symbols).bind fun symbols hsymbols =>
      (judges_symbols "partial symbol" m.partialSymbols).bind fun partialSymbols hpartial =>
        (judges_symbols "not found symbol" m.notFound).bind fun notFound hnotFound =>
          hmappings.map fun mappings hlength => ?_
  simp only [List.length_append, hdataset, hfixed, hsymbols, hpartial, hnotFound, hlength]
  rw [frameSize, minFrameSize, symbolCount, intervalCount, Nat.mul_add, Nat.mul_add]
  omega

/-! ### Blocks -/

/-- What can be written: metadata of the one version whose texts fit into their fields and whose
frame is not too long. -/
structure IsWritable (m : Metadata) : Prop where
  /-- The version is the one that can be written. -/
  version : m.version = 1
  /-- The dataset has fewer than sixteen bytes. -/
  dataset : m.dataset.length < 16
  /-- Every symbol has fewer than twenty-two bytes. -/
  symbols : ∀ symbol ∈ m.symbols ++ m.partialSymbols ++ m.notFound, symbol.length < 22
  /-- So has every symbol that is mapped. -/
  nativeSymbols : ∀ mapping ∈ m.mappings, mapping.nativeSymbol.length < 22
  /-- So has every symbol to which one is mapped. -/
  mappedSymbols : ∀ mapping ∈ m.mappings, ∀ i ∈ mapping.intervals, i.symbol.length < 22
  /-- The length of the frame can be told in four bytes. -/
  frame : m.frameSize < UInt32.size

theorem forall_symbolFields {name : String} {symbols : List Text} :
    (∀ f ∈ symbolFields name symbols, f.text.length < f.width) ↔
      ∀ symbol ∈ symbols, symbol.length < symbolWidth := by
  rw [symbolFields, List.forall_mem_map]

theorem isWritable_iff {m : Metadata} :
    m.IsWritable ↔
      m.version = formatVersion ∧ firstOverlong? m.textFields = none ∧
        m.frameSize ≤ maxFrameSize := by
  have hmappings : (∀ f ∈ m.mappings.flatMap (·.textFields), f.text.length < f.width) ↔
      ∀ mapping ∈ m.mappings, mapping.nativeSymbol.length < symbolWidth ∧
        ∀ i ∈ mapping.intervals, i.symbol.length < symbolWidth := by
    rw [List.forall_mem_flatMap]
    simp only [SymbolMapping.textFields, List.forall_mem_cons, forall_symbolFields,
      List.forall_mem_map]
  rw [firstOverlong?_eq_none_iff, textFields, List.forall_mem_cons, List.forall_mem_append,
    List.forall_mem_append, List.forall_mem_append, forall_symbolFields, forall_symbolFields,
    forall_symbolFields, hmappings, ← List.forall_mem_append, ← List.forall_mem_append]
  constructor
  · intro h
    exact ⟨h.version, ⟨h.dataset, h.symbols, fun mapping hmapping =>
      ⟨h.nativeSymbols mapping hmapping, h.mappedSymbols mapping hmapping⟩⟩,
      Nat.lt_succ_iff.mp h.frame⟩
  · rintro ⟨hversion, ⟨hdataset, hsymbols, hmapped⟩, hframe⟩
    exact ⟨hversion, hdataset, hsymbols, fun mapping hmapping => (hmapped mapping hmapping).1,
      fun mapping hmapping => (hmapped mapping hmapping).2, Nat.lt_succ_iff.mpr hframe⟩

theorem exists_encode_of_isWritable {m : Metadata} (h : m.IsWritable) :
    ∃ frame, m.encode = .ok (blockOf frame) ∧ frame.length = m.frameSize := by
  obtain ⟨hversion, hnone, hmax⟩ := isWritable_iff.mp h
  obtain ⟨frame, hframe, hlength⟩ := m.judges_encodeFrame.ok hnone
  rw [← hlength] at hmax
  exact ⟨frame, encode_of_encodeFrame hversion hframe hmax, hlength⟩

/-- What cannot be written is refused for its version, or else for its first text that is too long,
or else for the size of its frame. -/
theorem exists_encode_eq_error {m : Metadata} (h : ¬m.IsWritable) :
    ∃ fault, m.encode = .error fault ∧
      (m.version ≠ formatVersion → fault.kind = .unsupportedVersion) ∧
      (m.version = formatVersion → fault.kind = .invalidArgument ∧
        ∀ f, firstOverlong? m.textFields = some f → fault = f.fault) := by
  rw [isWritable_iff] at h
  by_cases hversion : m.version = formatVersion
  case neg =>
    rw [encode, if_pos hversion]
    exact ⟨_, rfl, fun _ => rfl, fun hsame => absurd hsame hversion⟩
  case pos =>
    have hframe := m.judges_encodeFrame
    rw [encode, hversion, if_neg (fun hne => hne rfl)]
    cases hfirst : firstOverlong? m.textFields with
    | some f =>
      rw [hframe.error f hfirst]
      exact ⟨f.fault, rfl, fun hne => absurd rfl hne, fun _ =>
        ⟨rfl, fun g hg => by rw [Option.some.inj hg]⟩⟩
    | none =>
      obtain ⟨frame, hok, hlength⟩ := hframe.ok hfirst
      have hlong : maxFrameSize < frame.length := by
        rw [hlength]
        exact Nat.lt_of_not_le fun hmax => h ⟨hversion, hfirst, hmax⟩
      rw [hok]
      exact ⟨_, if_pos hlong, fun hne => absurd rfl hne, fun _ => ⟨rfl, fun g hg => by cases hg⟩⟩

/-! ### What a refusal says -/

theorem width_of_mem_symbolFields {name : String} {symbols : List Text} {f : TextField}
    (h : f ∈ symbolFields name symbols) : f.width = symbolWidth := by
  obtain ⟨symbol, -, rfl⟩ := List.mem_map.mp h
  rfl

theorem width_of_mem_textFields {m : Metadata} {f : TextField} (h : f ∈ m.textFields) :
    f.width = datasetWidth ∨ f.width = symbolWidth := by
  rw [textFields, List.mem_cons, List.mem_append, List.mem_append, List.mem_append,
    List.mem_flatMap] at h
  rcases h with rfl | ((hsymbols | hpartial) | hnotFound) | ⟨mapping, -, hmapping⟩
  · exact .inl rfl
  · exact .inr (width_of_mem_symbolFields hsymbols)
  · exact .inr (width_of_mem_symbolFields hpartial)
  · exact .inr (width_of_mem_symbolFields hnotFound)
  · rw [SymbolMapping.textFields, List.mem_cons] at hmapping
    rcases hmapping with rfl | hmapped
    · exact .inr rfl
    · exact .inr (width_of_mem_symbolFields hmapped)

/-- A refused text is named, with its field and the length it may have. -/
theorem message_fault {m : Metadata} {f : TextField} (h : f ∈ m.textFields) :
    f.fault.message = Text.ofAscii f.name ++ Text.ofAscii " \"" ++ f.text ++
      Text.ofAscii "\" is longer than " ++ Text.decimal (f.width - 1) ++
      Text.ofAscii " characters" := by
  have hwidth : (UInt64.ofNat f.width - 1).toNat = f.width - 1 := by
    rcases width_of_mem_textFields h with hwidth | hwidth <;> rw [hwidth] <;> rfl
  rw [TextField.fault, Fault.message, hwidth]

/-- **Metadata is written completely or not at all.** What can be written is appended to whatever
was there, in a block whose size is told by the lengths of the lists and is announced by the block.
What cannot be written leaves alone what was there. Another version is refused as such. Otherwise
the argument is invalid, and the first text that is too long, in the order of the format, is named
together with its field. -/
theorem encodeOnto_all_or_nothing (m : Metadata) :
    (m.IsWritable → ∃ block, (∀ written, m.encodeOnto written = (.ok (), written ++ block)) ∧
      block.length = 128 + 22 * m.symbolCount + 26 * m.mappings.length + 30 * m.intervalCount ∧
      peekLength block = .ok (some block.length)) ∧
    (¬m.IsWritable → ∃ fault, (∀ written, m.encodeOnto written = (.error fault, written)) ∧
      (m.version ≠ 1 → fault.kind = .unsupportedVersion) ∧
      (m.version = 1 → fault.kind = .invalidArgument ∧
        ∀ f, firstOverlong? m.textFields = some f → fault.message =
          Text.ofAscii f.name ++ Text.ofAscii " \"" ++ f.text ++
            Text.ofAscii "\" is longer than " ++ Text.decimal (f.width - 1) ++
            Text.ofAscii " characters")) := by
  refine ⟨fun h => ?written, fun h => ?refused⟩
  case written =>
    obtain ⟨frame, hencode, hlength⟩ := exists_encode_of_isWritable h
    have hpeek := peekLength_append_of_encode hencode []
    rw [List.append_nil] at hpeek
    refine ⟨blockOf frame, fun written => by rw [encodeOnto, hencode], ?_, hpeek⟩
    rw [length_blockOf, hlength, frameSize, ← Nat.add_assoc, ← Nat.add_assoc, ← Nat.add_assoc]
    rfl
  case refused =>
    obtain ⟨fault, hencode, hversion, hkind⟩ := exists_encode_eq_error h
    refine ⟨fault, fun written => by rw [encodeOnto, hencode], hversion, fun hone => ?_⟩
    obtain ⟨hkind, hfault⟩ := hkind hone
    refine ⟨hkind, fun f hfirst => ?_⟩
    rw [hfault f hfirst, message_fault (List.mem_of_find?_eq_some hfirst)]

end Metadata

end MarketWire
