import MarketWire.Metadata.Encoder
import MarketWire.Proofs.Recognizers

/-!
# The grammar of a block

The frame of a block of metadata is cut into sections: the fixed fields, three lists of symbols and
the list of mappings, all lists behind their counts. `Metadata.Sections` is that grammar as a type,
so there are no sections that a frame could not hold. What is behind the last section is left over
and belongs to the frame as well.

The walk over a frame recognizes the grammar. It reads every row of sections, fails where there is
none, and is told by the bytes up to the end of the frame alone.

## Main definitions

* `CountedList` — a list whose length can be told in four bytes.
* `Metadata.Sections` — the sections of a frame, with `toBytes` and `contents`.

## Main results

* `Metadata.recognizes_scanList` — the walk over a list recognizes its elements behind their count.
* `Metadata.recognizes_scanFrame` — **the walk over a frame recognizes its sections**.
-/

namespace MarketWire

/-! ### Fields -/

namespace LittleEndian

/-- The numbers that fit into a width are the byte strings of that width. -/
def numberEquiv (width : Nat) : {n : Nat // n < modulus width} ≃ FixedBytes width where
  toFun n := ⟨encode width n, length_encode ..⟩
  invFun bs := ⟨decode bs.1, by simpa only [bs.2] using decode_lt bs.1⟩
  left_inv n := Subtype.ext ((decode_encode width n.1).trans (Nat.mod_eq_of_lt n.2))
  right_inv bs := Subtype.ext (by simpa only [bs.2] using encode_decode bs.1)

/-- The numbers of one byte. -/
def uint8Equiv : UInt8 ≃ {n : Nat // n < modulus 1} where
  toFun n := ⟨n.toNat, n.toNat_lt⟩
  invFun n := UInt8.ofNat n.1
  left_inv _ := UInt8.ofNat_toNat
  right_inv n := Subtype.ext (UInt8.toNat_ofNat_of_lt' n.2)

/-- The numbers of two bytes. -/
def uint16Equiv : UInt16 ≃ {n : Nat // n < modulus 2} where
  toFun n := ⟨n.toNat, n.toNat_lt⟩
  invFun n := UInt16.ofNat n.1
  left_inv _ := UInt16.ofNat_toNat
  right_inv n := Subtype.ext (UInt16.toNat_ofNat_of_lt' n.2)

/-- The numbers of four bytes. -/
def uint32Equiv : UInt32 ≃ {n : Nat // n < modulus 4} where
  toFun n := ⟨n.toNat, n.toNat_lt⟩
  invFun n := UInt32.ofNat n.1
  left_inv _ := UInt32.ofNat_toNat
  right_inv n := Subtype.ext (UInt32.toNat_ofNat_of_lt' n.2)

/-- The numbers of eight bytes. -/
def uint64Equiv : UInt64 ≃ {n : Nat // n < modulus 8} where
  toFun n := ⟨n.toNat, n.toNat_lt⟩
  invFun n := UInt64.ofNat n.1
  left_inv _ := UInt64.ofNat_toNat
  right_inv n := Subtype.ext (UInt64.toNat_ofNat_of_lt' n.2)

end LittleEndian

namespace Scan

variable {α σ : Type} {width : Nat}

/-- A walk that reads every byte string of a width recognizes them. -/
theorem recognizes_of_width {scan : Scan α} {read : FixedBytes width → α}
    (h : ∀ bs : FixedBytes width, Yields scan bs.1 (read bs)) :
    Recognizes scan width (fun bs : FixedBytes width => bs.1) read := by
  constructor
  case yields => exact h
  case fails =>
    intro offset inside hroom hnone
    exact absurd (List.take_prefix width inside)
      (hnone ⟨inside.take width, List.length_take_of_le hroom⟩)
  case unique =>
    intro bs cs rest rest' heq
    exact Subtype.ext (List.append_inj heq (by rw [bs.2, cs.2])).1

theorem recognizes_skip (width : Nat) :
    Recognizes (skip width) width (fun bs : FixedBytes width => bs.1) fun _ => () :=
  recognizes_of_width fun bs => yields_skip bs.2

theorem recognizes_text (width : Nat) :
    Recognizes (text width) width (fun bs : FixedBytes width => bs.1)
      fun bs => FixedText.decode bs.1 :=
  recognizes_of_width fun bs => yields_text bs.2

theorem recognizes_checkedText (width : Nat) :
    Recognizes (checkedText width) 0 (fun bs : FixedBytes width => bs.1)
      fun bs => FixedText.decode bs.1 :=
  (recognizes_text width).checked _ fun bs => Nat.le_of_eq bs.2.symm

/-- The numbers of a width are recognized under any name. -/
theorem recognizes_number (e : σ ≃ {n : Nat // n < LittleEndian.modulus width}) :
    Recognizes (number width) width (fun n => LittleEndian.encode width (e n).1)
      fun n => (e n).1 :=
  (recognizes_of_width fun bs => yields_number bs.2).congr (e.trans (LittleEndian.numberEquiv width))
    (fun _ => rfl) fun n => by
      rw [Equiv.trans_apply]
      exact congrArg Subtype.val ((LittleEndian.numberEquiv width).symm_apply_apply (e n)).symm

/-- The numbers of four bytes, once there is room for one. -/
theorem recognizes_word (short : Nat → Fault) :
    Recognizes (word short) 0
      (fun n : {n : Nat // n < LittleEndian.modulus 4} => LittleEndian.encode 4 n.1) fun n => n.1 :=
  (recognizes_number (Equiv.refl _)).checked short fun _ =>
    Nat.le_of_eq (LittleEndian.length_encode ..).symm

end Scan

/-! ### Lists -/

/-- A list whose length can be told in four bytes. -/
abbrev CountedList (σ : Type) := {cs : List σ // cs.length < LittleEndian.modulus Metadata.countSize}

namespace CountedList

variable {σ : Type}

/-- The elements behind their count. -/
def toBytes (write : σ → Bytes) (cs : CountedList σ) : Bytes :=
  LittleEndian.encode Metadata.countSize cs.1.length ++ cs.1.flatMap write

/-- A list is its length and so many elements. -/
def lengthEquiv (σ : Type) :
    CountedList σ ≃
      (n : {n : Nat // n < LittleEndian.modulus Metadata.countSize}) ×
        {cs : List σ // cs.length = n.1} where
  toFun cs := ⟨⟨cs.1.length, cs.2⟩, cs.1, rfl⟩
  invFun p := ⟨p.2.1, by rw [p.2.2]; exact p.1.2⟩
  left_inv _ := rfl
  right_inv := by
    rintro ⟨⟨n, hn⟩, cs, hcs⟩
    change cs.length = n at hcs
    subst hcs
    rfl

end CountedList

/-- Elements of at least so many bytes in a row. -/
theorem length_mul_le_length_flatMap {σ : Type} {write : σ → Bytes} {unit : Nat}
    (h : ∀ c, unit ≤ (write c).length) (cs : List σ) :
    cs.length * unit ≤ (cs.flatMap write).length := by
  induction cs with
  | nil => simp
  | cons c cs ih =>
    have := h c
    rw [List.length_cons, Nat.succ_mul, List.flatMap_cons, List.length_append]
    omega

namespace Metadata

open Scan

/-- **The walk over a list recognizes its elements behind their count.** An element takes at least
`unit` bytes, and its walk needs no more room than that. -/
theorem recognizes_scanList {α σ : Type} {element : Scan α} {room unit : Nat} {write : σ → Bytes}
    {read : σ → α} (h : Recognizes element room write read)
    (hfixed : room = 0 ∨ ∀ c, (write c).length = room) (hroom : room ≤ unit)
    (hunit : ∀ c, unit ≤ (write c).length) (short : Nat → Fault) (excess : Nat → Nat → Fault) :
    Recognizes (scanList element unit short excess) 0 (CountedList.toBytes write)
      fun cs => cs.1.map read := by
  have hrow : ∀ n : {n : Nat // n < LittleEndian.modulus countSize},
      Recognizes (do ensure n.1 unit (excess n.1); Scan.repeated element n.1) 0
        (fun cs : {cs : List σ // cs.length = n.1} => cs.1.flatMap write)
        fun cs => cs.1.map read := by
    intro n
    refine ((h.repeated hfixed n.1).mono (Nat.mul_le_mul_left _ hroom)).ensured (excess n.1) ?_
    intro cs
    have hlength := length_mul_le_length_flatMap hunit cs.1
    rwa [cs.2] at hlength
  have hlist : Recognizes (scanList element unit short excess) (0 + 0) _ _ :=
    (recognizes_word short).bind_sigma hrow (.inl rfl)
  exact hlist.congr (CountedList.lengthEquiv σ) (fun _ => rfl) fun _ => rfl

/-! ### Sections -/

/-- The code of a schema that can be read: a listed one or the mark for a mix. -/
abbrev SchemaCode := {code : UInt16 // code = Schema.mixedCode ∨ Schema.IsListed ⟨code⟩}

/-- A symbology type that can be read. -/
abbrev ListedSymbologyType := {s : SymbologyType // s.IsListed}

/-- A byte that is zero or one. -/
abbrev FlagByte := {b : UInt8 // b ≤ 1}

/-- The totals as they lie in a frame. -/
structure TotalsSection where
  /-- The first nanosecond of the query since 1970. -/
  startTs : UInt64
  /-- The nanosecond after the last one of the query, all ones for none. -/
  endTs : UInt64
  /-- The number of records that was asked for at most, zero for none. -/
  limit : UInt64
  /-- The number of records. -/
  recordCount : UInt64

/-- An interval of a mapping as it lies in a frame. -/
structure IntervalSection where
  /-- The first day. -/
  startDate : UInt32
  /-- The day after the last one. -/
  endDate : UInt32
  /-- The field of the symbol. -/
  symbol : FixedBytes symbolWidth

/-- A mapping as it lies in a frame. -/
structure MappingSection where
  /-- The field of the symbol. -/
  nativeSymbol : FixedBytes symbolWidth
  /-- The intervals. -/
  intervals : CountedList IntervalSection

/-- The sections of a frame. -/
structure Sections where
  /-- The field of the dataset. -/
  dataset : FixedBytes datasetWidth
  /-- The code of the schema. -/
  schema : SchemaCode
  /-- The totals. -/
  totals : TotalsSection
  /-- The symbology type of the query. -/
  stypeIn : ListedSymbologyType
  /-- The symbology type of the records. -/
  stypeOut : ListedSymbologyType
  /-- The flag for send timestamps. -/
  tsOut : FlagByte
  /-- The reserved bytes. -/
  reserved : FixedBytes reservedSize
  /-- The fields of the symbols. -/
  symbols : CountedList (FixedBytes symbolWidth)
  /-- The fields of the symbols that resolved on some days only. -/
  partialSymbols : CountedList (FixedBytes symbolWidth)
  /-- The fields of the symbols that resolved on no day. -/
  notFound : CountedList (FixedBytes symbolWidth)
  /-- The mappings. -/
  mappings : CountedList MappingSection

/-! #### Fields in a row

A walk reads one field after another, so it recognizes rows of fields. Each kind of section is such a
row. -/

/-- The totals as a row of numbers. -/
def TotalsSection.rowEquiv : TotalsSection ≃ UInt64 × UInt64 × UInt64 × UInt64 where
  toFun t := (t.startTs, t.endTs, t.limit, t.recordCount)
  invFun | (startTs, endTs, limit, recordCount) => ⟨startTs, endTs, limit, recordCount⟩
  left_inv _ := rfl
  right_inv _ := rfl

/-- An interval as a row of its fields. -/
def IntervalSection.rowEquiv : IntervalSection ≃ UInt32 × UInt32 × FixedBytes symbolWidth where
  toFun i := (i.startDate, i.endDate, i.symbol)
  invFun | (startDate, endDate, symbol) => ⟨startDate, endDate, symbol⟩
  left_inv _ := rfl
  right_inv _ := rfl

/-- A mapping as a row of its fields. -/
def MappingSection.rowEquiv :
    MappingSection ≃ FixedBytes symbolWidth × CountedList IntervalSection where
  toFun m := (m.nativeSymbol, m.intervals)
  invFun | (nativeSymbol, intervals) => ⟨nativeSymbol, intervals⟩
  left_inv _ := rfl
  right_inv _ := rfl

/-- All sections in a row. The empty schema definition has its place in it. -/
def Sections.rowEquiv :
    Sections ≃ FixedBytes datasetWidth × SchemaCode × TotalsSection ×
      (ListedSymbologyType × ListedSymbologyType) × FlagByte × FixedBytes reservedSize × Unit ×
      CountedList (FixedBytes symbolWidth) × CountedList (FixedBytes symbolWidth) ×
      CountedList (FixedBytes symbolWidth) × CountedList MappingSection where
  toFun s := (s.dataset, s.schema, s.totals, (s.stypeIn, s.stypeOut), s.tsOut, s.reserved, (),
    s.symbols, s.partialSymbols, s.notFound, s.mappings)
  invFun
    | (dataset, schema, totals, (stypeIn, stypeOut), tsOut, reserved, _, symbols, partialSymbols,
        notFound, mappings) =>
      ⟨dataset, schema, totals, stypeIn, stypeOut, tsOut, reserved, symbols, partialSymbols,
        notFound, mappings⟩
  left_inv _ := rfl
  right_inv _ := rfl

/-! #### Bytes -/

/-- The bytes of the totals. -/
def TotalsSection.toBytes (t : TotalsSection) : Bytes :=
  LittleEndian.encode 8 t.startTs.toNat ++ LittleEndian.encode 8 t.endTs.toNat ++
    LittleEndian.encode 8 t.limit.toNat ++ LittleEndian.encode 8 t.recordCount.toNat

/-- The bytes of an interval. -/
def IntervalSection.toBytes (i : IntervalSection) : Bytes :=
  LittleEndian.encode 4 i.startDate.toNat ++ LittleEndian.encode 4 i.endDate.toNat ++ i.symbol

/-- The bytes of a mapping. -/
def MappingSection.toBytes (m : MappingSection) : Bytes :=
  m.nativeSymbol ++ m.intervals.toBytes IntervalSection.toBytes

/-- The fields of a list of symbols behind their count. -/
def symbolsToBytes (symbols : CountedList (FixedBytes symbolWidth)) : Bytes :=
  symbols.toBytes fun symbol => symbol.1

/-- The bytes of all sections in the order of the format. -/
def Sections.toBytes (s : Sections) : Bytes :=
  s.dataset ++ LittleEndian.encode 2 s.schema.1.toNat ++ s.totals.toBytes ++
    [s.stypeIn.1.code, s.stypeOut.1.code, s.tsOut.1] ++ s.reserved ++ LittleEndian.encode 4 0 ++
    symbolsToBytes s.symbols ++ symbolsToBytes s.partialSymbols ++ symbolsToBytes s.notFound ++
    s.mappings.toBytes MappingSection.toBytes

/-! #### Contents -/

/-- The schema behind its code. -/
def schemaOfCode (code : UInt16) : Option Schema :=
  if code = Schema.mixedCode then none else some ⟨code⟩

/-- The totals, an end of all ones and a limit of zero being none. -/
def TotalsSection.contents (t : TotalsSection) : Totals where
  startTs := t.startTs
  endTs := if t.endTs = noEndTs then none else some t.endTs
  limit := if t.limit = 0 then none else some t.limit
  recordCount := t.recordCount

/-- What an interval says. -/
def IntervalSection.contents (i : IntervalSection) : MappingInterval where
  startDate := i.startDate
  endDate := i.endDate
  symbol := FixedText.decode i.symbol

/-- What a mapping says. -/
def MappingSection.contents (m : MappingSection) : SymbolMapping where
  nativeSymbol := FixedText.decode m.nativeSymbol
  intervals := m.intervals.1.map IntervalSection.contents

/-- The texts of a list of symbols. -/
def symbolsContents (symbols : CountedList (FixedBytes symbolWidth)) : List Text :=
  symbols.1.map fun symbol => FixedText.decode symbol.1

/-- The metadata that the sections say. -/
def Sections.contents (s : Sections) : Metadata where
  version := formatVersion
  dataset := FixedText.decode s.dataset
  schema := schemaOfCode s.schema
  startTs := s.totals.contents.startTs
  endTs := s.totals.contents.endTs
  limit := s.totals.contents.limit
  recordCount := s.totals.contents.recordCount
  stypeIn := s.stypeIn
  stypeOut := s.stypeOut
  tsOut := s.tsOut.1 = 1
  symbols := symbolsContents s.symbols
  partialSymbols := symbolsContents s.partialSymbols
  notFound := symbolsContents s.notFound
  mappings := s.mappings.1.map MappingSection.contents

/-! #### Recognizing -/

theorem recognizes_scanSchema :
    Recognizes scanSchema 2 (fun code : SchemaCode => LittleEndian.encode 2 code.1.toNat)
      fun code => schemaOfCode code := by
  have hcode : ∀ code : UInt16, UInt16.ofNat (LittleEndian.uint16Equiv code).1 = code :=
    fun _ => UInt16.ofNat_toNat
  refine (recognizes_number LittleEndian.uint16Equiv).guard ?_ ?_
  · rintro ⟨code, hlisted⟩
    rw [hcode, schemaOfCode]
    dsimp only
    split
    · rfl
    · rename_i hmixed
      rw [if_pos (hlisted.resolve_left hmixed)]
  · intro code hunlisted
    rw [hcode]
    dsimp only
    rw [if_neg fun h => hunlisted (.inl h), if_neg fun h => hunlisted (.inr h)]
    exact ⟨_, rfl⟩

theorem recognizes_scanTotals :
    Recognizes scanTotals 32 TotalsSection.toBytes TotalsSection.contents := by
  have hnumber := recognizes_number LittleEndian.uint64Equiv
  have hfixed : ∀ n : UInt64,
      (LittleEndian.encode 8 (LittleEndian.uint64Equiv n).1).length = 8 := fun _ =>
    LittleEndian.length_encode ..
  have h : Recognizes scanTotals (8 + (8 + (8 + 8))) _ _ :=
    hnumber.bind (fun startTs => hnumber.bind (fun endTs => hnumber.bind (fun limit =>
      hnumber.map _) (.inr hfixed)) (.inr hfixed)) (.inr hfixed)
  refine h.congr TotalsSection.rowEquiv ?_ ?_
  · intro t
    simp only [TotalsSection.toBytes, List.append_assoc]
    rfl
  · intro t
    simp only [LittleEndian.uint64Equiv, Equiv.coe_fn_mk, UInt64.ofNat_toNat]
    rfl

theorem recognizes_byte : Recognizes (number 1) 1 (fun b : UInt8 => [b]) fun b => b.toNat :=
  (recognizes_number LittleEndian.uint8Equiv).congr (Equiv.refl _)
    (fun b => congrArg (· :: []) (UInt8.ofNat_toNat (x := b)).symm) fun _ => rfl

theorem recognizes_scanSymbologyTypes :
    Recognizes scanSymbologyTypes 2
      (fun p : ListedSymbologyType × ListedSymbologyType => [p.1.1.code, p.2.1.code])
      fun p => (p.1.1, p.2.1) := by
  -- Both codes are judged together, after the second one was read.
  have hsecond : ∀ a : UInt8, Recognizes (do
      let stypeIn : SymbologyType := ⟨UInt8.ofNat a.toNat⟩
      let stypeOut : SymbologyType := ⟨UInt8.ofNat (← number 1)⟩
      if stypeIn.IsListed ∧ stypeOut.IsListed then
        return (stypeIn, stypeOut)
      else
        throw (.invalidSymbolTypes stypeIn.code stypeOut.code)) 1
      (fun b : {b : UInt8 // SymbologyType.IsListed ⟨a⟩ ∧ SymbologyType.IsListed ⟨b⟩} => [b.1])
      fun b => (⟨a⟩, ⟨b⟩) := by
    intro a
    rw [UInt8.ofNat_toNat]
    refine recognizes_byte.guard ?_ ?_
    · rintro ⟨b, hb⟩
      rw [UInt8.ofNat_toNat]
      exact if_pos hb
    · intro b hb
      rw [UInt8.ofNat_toNat]
      exact ⟨_, if_neg hb⟩
  have h : Recognizes scanSymbologyTypes (1 + 1) _ _ :=
    recognizes_byte.bind_sigma hsecond (.inr fun _ => rfl)
  exact h.congr ⟨fun p => ⟨p.1.1.code, p.2.1.code, p.1.2, p.2.2⟩,
    fun p => (⟨⟨p.1⟩, p.2.2.1⟩, ⟨⟨p.2.1⟩, p.2.2.2⟩), fun _ => rfl, fun _ => rfl⟩ (fun _ => rfl)
    fun _ => rfl

theorem recognizes_scanTsOut :
    Recognizes scanTsOut 1 (fun b : FlagByte => [b.1]) fun b => b.1 = 1 := by
  refine recognizes_byte.guard ?_ ?_
  · rintro ⟨b, hb⟩
    rw [UInt8.ofNat_toNat]
    exact if_pos hb
  · intro b hb
    rw [UInt8.ofNat_toNat]
    exact ⟨_, if_neg hb⟩

theorem recognizes_scanSchemaDefinition :
    Recognizes scanSchemaDefinition 4 (fun _ : Unit => LittleEndian.encode 4 0) fun _ => () := by
  have h : Recognizes scanSchemaDefinition 4 _ fun _ => () :=
    (recognizes_number (Equiv.refl _)).guard (p := fun n => n.1 = 0)
      (fun n => if_pos n.2) fun n hn => ⟨_, if_neg hn⟩
  refine h.congr ⟨fun _ => ⟨⟨0, by decide⟩, rfl⟩, fun _ => (), fun _ => rfl, ?_⟩ (fun _ => rfl)
    fun _ => rfl
  rintro ⟨⟨n, hn⟩, hzero⟩
  exact Subtype.ext (Subtype.ext hzero.symm)

theorem recognizes_scanSymbols : Recognizes scanSymbols 0 symbolsToBytes symbolsContents :=
  recognizes_scanList (recognizes_text symbolWidth) (.inr fun symbol => symbol.2) (Nat.le_refl _)
    (fun symbol => Nat.le_of_eq symbol.2.symm) _ _

theorem IntervalSection.length_toBytes (i : IntervalSection) : i.toBytes.length = intervalSize := by
  simp only [toBytes, List.length_append, LittleEndian.length_encode, i.symbol.2, intervalSize]

theorem recognizes_scanInterval :
    Recognizes scanInterval intervalSize IntervalSection.toBytes IntervalSection.contents := by
  have hnumber := recognizes_number LittleEndian.uint32Equiv
  have hfixed : ∀ n : UInt32,
      (LittleEndian.encode 4 (LittleEndian.uint32Equiv n).1).length = 4 := fun _ =>
    LittleEndian.length_encode ..
  have h : Recognizes scanInterval (4 + (4 + symbolWidth)) _ _ :=
    hnumber.bind (fun startDate => hnumber.bind (fun endDate =>
      (recognizes_text symbolWidth).map _) (.inr hfixed)) (.inr hfixed)
  refine h.congr IntervalSection.rowEquiv ?_ ?_
  · intro i
    simp only [IntervalSection.toBytes, List.append_assoc]
    rfl
  · intro i
    simp only [LittleEndian.uint32Equiv, Equiv.coe_fn_mk, UInt32.ofNat_toNat]
    rfl

theorem MappingSection.mappingSize_le (m : MappingSection) : mappingSize ≤ m.toBytes.length := by
  simp [toBytes, CountedList.toBytes, m.nativeSymbol.2, mappingSize]

theorem recognizes_scanMapping :
    Recognizes scanMapping 0 MappingSection.toBytes MappingSection.contents := by
  have h : Recognizes scanMapping (0 + 0) _ _ :=
    (recognizes_checkedText symbolWidth).bind (fun nativeSymbol =>
      (recognizes_scanList recognizes_scanInterval (.inr IntervalSection.length_toBytes)
        (Nat.le_refl _) (fun i => Nat.le_of_eq i.length_toBytes.symm) _ _).map _) (.inl rfl)
  exact h.congr MappingSection.rowEquiv (fun _ => rfl) fun _ => rfl

theorem recognizes_scanMappings :
    Recognizes scanMappings 0 (CountedList.toBytes MappingSection.toBytes)
      fun mappings => mappings.1.map MappingSection.contents :=
  recognizes_scanList recognizes_scanMapping (.inl rfl) (Nat.zero_le _)
    MappingSection.mappingSize_le _ _

/-- **The walk over a frame recognizes its sections.** -/
theorem recognizes_scanFrame :
    Recognizes (scanFrame formatVersion) fixedSize Sections.toBytes Sections.contents := by
  have h : Recognizes (scanFrame formatVersion)
      (datasetWidth + (2 + (32 + (2 + (1 + (reservedSize + (4 + (0 + (0 + (0 + 0)))))))))) _ _ :=
    (recognizes_text datasetWidth).bind (fun dataset =>
      recognizes_scanSchema.bind (fun schema =>
        recognizes_scanTotals.bind (fun totals =>
          recognizes_scanSymbologyTypes.bind (fun stypes =>
            recognizes_scanTsOut.bind (fun tsOut =>
              (recognizes_skip reservedSize).bind (fun reserved =>
                recognizes_scanSchemaDefinition.bind (fun _ =>
                  recognizes_scanSymbols.bind (fun symbols =>
                    recognizes_scanSymbols.bind (fun partialSymbols =>
                      recognizes_scanSymbols.bind (fun notFound =>
                        recognizes_scanMappings.map _)
                      (.inl rfl)) (.inl rfl)) (.inl rfl)) (.inl rfl))
                (.inr fun reserved => reserved.2))
              (.inr fun _ => rfl))
            (.inr fun _ => rfl))
          (.inr fun _ => rfl))
        (.inr fun _ => rfl))
      (.inr fun dataset => dataset.2)
  refine h.congr Sections.rowEquiv ?_ ?_
  · intro s
    simp only [Sections.toBytes, List.append_assoc, List.cons_append, List.nil_append]
    rfl
  · exact fun _ => rfl

end Metadata

end MarketWire
