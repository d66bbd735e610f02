import MarketWire.Proofs.VisitedMembers

/-!
# What the fields of a record show

The fields of a record are those of the row that its members and its visits make up, read slot after
slot, each behind the bytes of the one before. Nothing in this keeps a member from being reserved
bytes that nobody is shown, as long as the widths add up. So the places of the bytes that are *not*
shown are written down here a second time, as numbers and apart from the row: the length in the
header and the reserved bytes of each type, and the stretches that its texts take. Two records of a
type have the same fields if and only if they agree on all other bytes, and in each text up to its
first NUL.

Within a slot this is a matter of its kind. Numbers are told apart by all of their bytes, signed ones
too since the two's complement reading only moves the upper half of the range. A text is told up to
its first NUL, and bytes behind that NUL are shown by neither side, even if only one of the two texts
has bytes there.

## Main definitions

* `Stretch`, `PlacedSlot`, `Layout.placed` — stretches of bytes, and slots with their places.
* `RecordType.unseen`, `RecordType.texts` — where a type has bytes that are not shown, and texts.
* `RecordType.Shows` — whether the fields of a record show a byte.

## Main results

* `Layout.values_read_eq_iff` — what the fields of any layout show.
* `OwnedRecord.values_fields_eq_iff` — **the fields of a record show all bytes but those listed**.
-/

namespace MarketWire

/-! ### Numbers and texts -/

namespace LittleEndian

/-- Byte strings of one length are told apart by their number. -/
theorem decode_inj {a b : Bytes} (h : a.length = b.length) : decode a = decode b ↔ a = b := by
  constructor
  · intro heq
    rw [← encode_decode a, heq, h, encode_decode]
  · rintro rfl
    rfl

/-- Reading in two's complement moves the upper half of the range, which can be undone. -/
theorem decodeSigned_emod (bs : Bytes) : decodeSigned bs % (modulus bs.length : Int) = decode bs := by
  have hlt : (decode bs : Int) < modulus bs.length := by exact_mod_cast decode_lt bs
  rw [decodeSigned, Int.bmod_emod, Int.emod_eq_of_lt (Int.natCast_nonneg _) hlt]

theorem decodeSigned_inj {a b : Bytes} (h : a.length = b.length) :
    decodeSigned a = decodeSigned b ↔ a = b := by
  constructor
  · intro heq
    have hmod := decodeSigned_emod a
    rw [heq, h, decodeSigned_emod b] at hmod
    exact (decode_inj h).mp (by exact_mod_cast hmod.symm)
  · rintro rfl
    rfl

end LittleEndian

/-- Fields of one width show the same text if they agree up to and including the first NUL. -/
theorem Text.upToNul_eq_iff {a b : Bytes} (h : a.length = b.length) :
    upToNul a = upToNul b ↔ ∀ i : Nat, (∀ j < i, a[j]? ≠ some 0) → a[i]? = b[i]? := by
  induction a generalizing b with
  | nil =>
    cases List.length_eq_zero_iff.mp h.symm
    simp
  | cons x a ih =>
    obtain ⟨y, b, rfl⟩ := List.exists_cons_of_length_eq_add_one h.symm
    have htail := ih (b := b) (by simpa using h)
    by_cases hx : x = 0
    · -- The text is empty, and only the first byte has to agree.
      subst hx
      have hhead : upToNul (0 :: a) = upToNul (y :: b) ↔ y = 0 := by
        by_cases hy : y = 0 <;> simp [upToNul, hy]
      rw [hhead]
      constructor
      · rintro rfl i hi
        cases i with
        | zero => rfl
        | succ i => exact absurd rfl (hi 0 (Nat.succ_pos i))
      · intro hagree
        simpa using (hagree 0 (by simp)).symm
    · have hhead : upToNul (x :: a) = upToNul (y :: b) ↔ x = y ∧ upToNul a = upToNul b := by
        by_cases hy : y = 0
        · simp [upToNul, hx, hy]
        · simp [upToNul, hx, hy]
      rw [hhead, htail]
      constructor
      · rintro ⟨rfl, hagree⟩ i hi
        cases i with
        | zero => rfl
        | succ i => exact hagree i fun j hj => hi (j + 1) (Nat.succ_lt_succ hj)
      · intro hagree
        refine ⟨by simpa using hagree 0 (by simp), fun i hi => hagree (i + 1) fun j hj => ?_⟩
        cases j with
        | zero => simpa using hx
        | succ j => exact hi j (Nat.lt_of_succ_lt_succ hj)

namespace FieldKind

/-- Whether a field holds a text. -/
def isText : FieldKind → Bool
  | .text _ => true
  | _ => false

/-- A text is told by its bytes up to the first NUL. -/
theorem decode_eq_iff_of_isText {kind : FieldKind} (h : kind.isText = true) {a b : Bytes} :
    kind.decode a = kind.decode b ↔ Text.upToNul a = Text.upToNul b := by
  cases kind with
  | text width => simp [decode, FixedText.decode]
  | _ => cases h

/-- Any other field is told by all of its bytes. -/
theorem decode_inj {kind : FieldKind} (h : kind.isText = false) {a b : Bytes}
    (ha : a.length = kind.width) (hb : b.length = kind.width) :
    kind.decode a = kind.decode b ↔ a = b := by
  have hlength := ha.trans hb.symm
  cases kind with
  | unsigned width =>
    rw [decode, decode, FieldValue.integer.injEq, Int.natCast_inj, LittleEndian.decode_inj hlength]
  | signed width => simp [decode, LittleEndian.decodeSigned_inj hlength]
  | price => simp [decode, LittleEndian.decodeSigned_inj hlength]
  | timestamp => simp [decode, LittleEndian.decode_inj hlength]
  | character =>
    obtain ⟨x, rfl⟩ := List.length_eq_one_iff.mp ha
    obtain ⟨y, rfl⟩ := List.length_eq_one_iff.mp hb
    simp [decode]
  | text width => cases h

end FieldKind

/-! ### Slots with their places -/

/-- So many bytes from a place on. -/
structure Stretch where
  /-- The place of the first byte. -/
  start : Nat
  /-- The number of bytes. -/
  width : Nat
  deriving DecidableEq, Repr

namespace Stretch

instance : Membership Nat Stretch where
  mem s i := s.start ≤ i ∧ i < s.start + s.width

theorem mem_iff {s : Stretch} {i : Nat} : i ∈ s ↔ s.start ≤ i ∧ i < s.start + s.width := Iff.rfl

/-- The bytes of a stretch. -/
def of (s : Stretch) (bs : Bytes) : Bytes :=
  (bs.drop s.start).take s.width

theorem length_of {s : Stretch} {bs : Bytes} (h : s.start + s.width ≤ bs.length) :
    (s.of bs).length = s.width := by
  rw [of, List.length_take, List.length_drop]
  omega

theorem getElem?_of {s : Stretch} (bs : Bytes) {i : Nat} (h : i < s.width) :
    (s.of bs)[i]? = bs[s.start + i]? := by
  rw [of, List.getElem?_take_of_lt h, List.getElem?_drop]

/-- The bytes of a stretch agree if those at its places do. -/
theorem of_eq_iff {s : Stretch} {a b : Bytes} (ha : s.start + s.width ≤ a.length)
    (hb : s.start + s.width ≤ b.length) : s.of a = s.of b ↔ ∀ i ∈ s, a[i]? = b[i]? := by
  constructor
  · intro heq i hi
    obtain ⟨hstart, hend⟩ := mem_iff.mp hi
    have hat := congrArg (·[i - s.start]?) heq
    simp only [getElem?_of _ (show i - s.start < s.width by omega),
      show s.start + (i - s.start) = i by omega] at hat
    exact hat
  · intro hagree
    refine List.ext_getElem? fun i => ?_
    by_cases hi : i < s.width
    · rw [getElem?_of a hi, getElem?_of b hi]
      exact hagree _ (mem_iff.mpr ⟨by omega, by omega⟩)
    · rw [List.getElem?_eq_none (by rw [length_of ha]; omega),
        List.getElem?_eq_none (by rw [length_of hb]; omega)]

/-- The texts in a stretch agree if the bytes up to the first NUL do. -/
theorem upToNul_of_eq_iff {s : Stretch} {a b : Bytes} (ha : s.start + s.width ≤ a.length)
    (hb : s.start + s.width ≤ b.length) :
    Text.upToNul (s.of a) = Text.upToNul (s.of b) ↔
      ∀ i ∈ s, (∀ j, s.start ≤ j → j < i → a[j]? ≠ some 0) → a[i]? = b[i]? := by
  rw [Text.upToNul_eq_iff ((length_of ha).trans (length_of hb).symm)]
  constructor
  · intro hagree i hi hbefore
    obtain ⟨hstart, hend⟩ := mem_iff.mp hi
    have hat := hagree (i - s.start) fun j hj => by
      rw [getElem?_of a (by omega)]
      exact hbefore _ (by omega) (by omega)
    rwa [getElem?_of a (by omega), getElem?_of b (by omega),
      show s.start + (i - s.start) = i by omega] at hat
  · intro hagree i hbefore
    by_cases hi : i < s.width
    · rw [getElem?_of a hi, getElem?_of b hi]
      refine hagree _ (mem_iff.mpr ⟨by omega, by omega⟩) fun j hstart hj => ?_
      have hat := hbefore (j - s.start) (by omega)
      rwa [getElem?_of a (by omega), show s.start + (j - s.start) = j by omega] at hat
    · rw [List.getElem?_eq_none (by rw [length_of ha]; omega),
        List.getElem?_eq_none (by rw [length_of hb]; omega)]

end Stretch

/-- Whether a slot is reserved. -/
def Slot.isReserved : Slot → Bool
  | .reserved _ => true
  | .field _ _ => false

/-- Whether a slot holds a text. -/
def Slot.isText : Slot → Bool
  | .reserved _ => false
  | .field _ kind => kind.isText

/-- A slot with the place of its first byte. -/
structure PlacedSlot where
  /-- The place of the first byte. -/
  start : Nat
  /-- The slot. -/
  slot : Slot

namespace PlacedSlot

/-- The bytes of the slot. -/
def stretch (p : PlacedSlot) : Stretch :=
  ⟨p.start, p.slot.width⟩

/-- Whether the slot shows the byte at `i`, which is one of its own. -/
structure Shows (p : PlacedSlot) (bs : Bytes) (i : Nat) : Prop where
  /-- The slot is a field. -/
  seen : p.slot.isReserved = false
  /-- In a text the byte is not behind the first NUL. -/
  counts : p.slot.isText = true → ∀ j, p.stretch.start ≤ j → j < i → bs[j]? ≠ some 0

/-- Whether the slot shows the same in two byte strings. -/
def Agrees (p : PlacedSlot) (a b : Bytes) : Prop :=
  match p.slot with
  | .field _ kind => kind.decode (p.stretch.of a) = kind.decode (p.stretch.of b)
  | .reserved _ => True

/-- **A slot shows the same if the bytes that it shows are the same.** -/
theorem agrees_iff {p : PlacedSlot} {a b : Bytes}
    (ha : p.stretch.start + p.stretch.width ≤ a.length)
    (hb : p.stretch.start + p.stretch.width ≤ b.length) :
    p.Agrees a b ↔ ∀ i ∈ p.stretch, p.Shows a i → a[i]? = b[i]? := by
  cases hslot : p.slot with
  | reserved width =>
    simp only [Agrees, hslot, true_iff]
    intro i _ hshows
    have hseen := hshows.seen
    rw [hslot] at hseen
    cases hseen
  | field name kind =>
    have hagrees : p.Agrees a b ↔ kind.decode (p.stretch.of a) = kind.decode (p.stretch.of b) := by
      simp only [Agrees, hslot]
    have hseen : p.slot.isReserved = false := by rw [hslot]; rfl
    have hkind : p.slot.isText = kind.isText := by rw [hslot]; rfl
    rw [hagrees]
    cases htext : kind.isText with
    | true =>
      rw [FieldKind.decode_eq_iff_of_isText htext, Stretch.upToNul_of_eq_iff ha hb]
      rw [htext] at hkind
      constructor
      · intro hagree i hi hshows
        exact hagree i hi (hshows.counts hkind)
      · intro hagree i hi hbefore
        exact hagree i hi ⟨hseen, fun _ => hbefore⟩
    | false =>
      have hwidth : p.stretch.width = kind.width := by rw [stretch, hslot]; rfl
      rw [FieldKind.decode_inj htext ((Stretch.length_of ha).trans hwidth)
        ((Stretch.length_of hb).trans hwidth), Stretch.of_eq_iff ha hb]
      rw [htext] at hkind
      constructor
      · intro hagree i hi _
        exact hagree i hi
      · intro hagree i hi
        exact hagree i hi ⟨hseen, by rw [hkind]; nofun⟩

end PlacedSlot

namespace Layout

/-- The slots with their places, the first one being at `start`. -/
def placed (start : Nat) : Layout → List PlacedSlot
  | [] => []
  | slot :: rest => ⟨start, slot⟩ :: placed (start + slot.width) rest

/-- Every slot lies within the layout. -/
theorem bounds_of_mem_placed {layout : Layout} {start : Nat} {p : PlacedSlot}
    (h : p ∈ layout.placed start) :
    start ≤ p.start ∧ p.start + p.slot.width ≤ start + layout.width := by
  induction layout generalizing start with
  | nil => cases h
  | cons slot rest ih =>
    rw [width]
    rcases List.mem_cons.mp h with rfl | h
    · show start ≤ start ∧ start + slot.width ≤ start + (slot.width + width rest)
      omega
    · have hrest := ih h
      omega

/-- Every place belongs to a slot. -/
theorem exists_mem_placed {layout : Layout} {start i : Nat} (hstart : start ≤ i)
    (hend : i < start + layout.width) : ∃ p ∈ layout.placed start, i ∈ p.stretch := by
  induction layout generalizing start with
  | nil =>
    rw [width] at hend
    omega
  | cons slot rest ih =>
    rw [width] at hend
    by_cases hi : i < start + slot.width
    · exact ⟨⟨start, slot⟩, List.mem_cons_self, hstart, hi⟩
    · obtain ⟨p, hp, hmem⟩ := ih (show start + slot.width ≤ i by omega) (by omega)
      exact ⟨p, List.mem_cons_of_mem _ hp, hmem⟩

/-- No place belongs to two slots. -/
theorem eq_of_mem_placed {layout : Layout} {start i : Nat} {p q : PlacedSlot}
    (hp : p ∈ layout.placed start) (hq : q ∈ layout.placed start) (hip : i ∈ p.stretch)
    (hiq : i ∈ q.stretch) : p = q := by
  induction layout generalizing start with
  | nil => cases hp
  | cons slot rest ih =>
    -- A place of the first slot lies ahead of all the others.
    have hahead : ∀ {r : PlacedSlot}, r ∈ placed (start + slot.width) rest → i ∈ r.stretch →
        i ∉ (PlacedSlot.mk start slot).stretch := by
      intro r hr hir hfirst
      have hbounds := (bounds_of_mem_placed hr).1
      have hlow : r.start ≤ i := hir.1
      have hhigh : i < start + slot.width := hfirst.2
      omega
    rcases List.mem_cons.mp hp with rfl | hp
    · rcases List.mem_cons.mp hq with rfl | hq
      · rfl
      · exact absurd hip (hahead hq hiq)
    · rcases List.mem_cons.mp hq with rfl | hq
      · exact absurd hiq (hahead hp hip)
      · exact ih hp hq

/-- Fields are read the same if every slot shows the same. -/
theorem values_read_drop_eq_iff (layout : Layout) (start : Nat) (a b : Bytes) :
    (layout.read (a.drop start)).map Field.value = (layout.read (b.drop start)).map Field.value ↔
      ∀ p ∈ layout.placed start, p.Agrees a b := by
  induction layout generalizing start with
  | nil => simp [read, placed]
  | cons slot rest ih =>
    rw [placed, List.forall_mem_cons, ← ih (start + slot.width)]
    cases slot with
    | field name kind =>
      simp [read, PlacedSlot.Agrees, PlacedSlot.stretch, Stretch.of, Slot.width]
    | reserved width => simp [read, PlacedSlot.Agrees, Slot.width]

/-- Whether the fields of a layout show the byte at `i`. -/
def Shows (layout : Layout) (bs : Bytes) (i : Nat) : Prop :=
  ∀ p ∈ layout.placed 0, i ∈ p.stretch → p.Shows bs i

/-- **Fields are read the same if all bytes that they show are the same.** -/
theorem values_read_eq_iff {layout : Layout} {a b : Bytes} (ha : a.length = layout.width)
    (hb : b.length = layout.width) :
    (layout.read a).map Field.value = (layout.read b).map Field.value ↔
      ∀ i, layout.Shows a i → a[i]? = b[i]? := by
  have hslots := layout.values_read_drop_eq_iff 0 a b
  rw [List.drop_zero, List.drop_zero] at hslots
  rw [hslots]
  have hagrees : ∀ p ∈ layout.placed 0,
      (p.Agrees a b ↔ ∀ i ∈ p.stretch, p.Shows a i → a[i]? = b[i]?) := by
    intro p hp
    have hbounds : p.stretch.start + p.stretch.width ≤ 0 + layout.width :=
      (bounds_of_mem_placed hp).2
    exact PlacedSlot.agrees_iff (by omega) (by omega)
  constructor
  · intro hall i hi
    by_cases hend : i < layout.width
    · obtain ⟨p, hp, hmem⟩ := exists_mem_placed (Nat.zero_le i) (show i < 0 + layout.width by omega)
      exact (hagrees p hp).mp (hall p hp) i hmem (hi p hp hmem)
    · rw [List.getElem?_eq_none (by omega), List.getElem?_eq_none (by omega)]
  · intro hall p hp
    refine (hagrees p hp).mpr fun i hmem hshows => hall i fun q hq hiq => ?_
    rwa [eq_of_mem_placed hq hp hiq hmem]

end Layout

/-! ### Types of records -/

namespace RecordType

/-- The bytes that no field shows: the length in the header, and what is reserved. -/
def unseen : RecordType → List Stretch
  | .instrumentDef => [⟨0, 1⟩, ⟨357, 3⟩]
  | .imbalance => [⟨0, 1⟩, ⟨111, 1⟩]
  | .stat => [⟨0, 1⟩, ⟨58, 6⟩]
  | .symbolMapping => [⟨0, 1⟩, ⟨60, 4⟩]
  | .mbo | .trade | .mbp1 | .mbp10 | .ohlcv | .status | .error | .system => [⟨0, 1⟩]

/-- The texts. -/
def texts : RecordType → List Stretch
  | .status => [⟨24, 21⟩]
  | .instrumentDef =>
    [⟨186, 4⟩, ⟨190, 4⟩, ⟨194, 6⟩, ⟨200, 22⟩, ⟨222, 21⟩, ⟨243, 5⟩, ⟨248, 7⟩, ⟨255, 7⟩, ⟨262, 7⟩,
      ⟨269, 31⟩, ⟨300, 21⟩, ⟨321, 21⟩]
  | .error | .system => [⟨16, 64⟩]
  | .symbolMapping => [⟨16, 22⟩, ⟨38, 22⟩]
  | .mbo | .trade | .mbp1 | .mbp10 | .ohlcv | .imbalance | .stat => []

/-- Whether the fields of a record show the byte at `i`: it is not one of those that no field shows,
and if it is part of a text no NUL of this text is ahead of it. -/
structure Shows (t : RecordType) (bs : Bytes) (i : Nat) : Prop where
  /-- The byte belongs to a field. -/
  seen : ∀ s ∈ t.unseen, i ∉ s
  /-- The byte is not behind the first NUL of a text. -/
  counts : ∀ s ∈ t.texts, i ∈ s → ∀ j, s.start ≤ j → j < i → bs[j]? ≠ some 0

/-- The layouts have their reserved slots at these places. -/
theorem unseen_eq (t : RecordType) :
    t.unseen = ((t.layout.placed 0).filter (·.slot.isReserved)).map PlacedSlot.stretch := by
  cases t <;> rfl

/-- The layouts have their texts at these places. -/
theorem texts_eq (t : RecordType) :
    t.texts = ((t.layout.placed 0).filter (·.slot.isText)).map PlacedSlot.stretch := by
  cases t <;> rfl

/-- A byte is shown by the slots of a layout when it is not at one of the places listed. -/
theorem shows_layout_iff {t : RecordType} {bs : Bytes} {i : Nat} :
    t.layout.Shows bs i ↔ t.Shows bs i := by
  constructor
  · intro h
    constructor
    case seen =>
      rw [unseen_eq, List.forall_mem_map]
      intro p hp hi
      obtain ⟨hmem, hreserved⟩ := List.mem_filter.mp hp
      rw [(h p hmem hi).seen] at hreserved
      cases hreserved
    case counts =>
      rw [texts_eq, List.forall_mem_map]
      intro p hp hi
      obtain ⟨hmem, htext⟩ := List.mem_filter.mp hp
      exact (h p hmem hi).counts htext
  · rintro ⟨hseen, hcounts⟩ p hp hi
    rw [unseen_eq, List.forall_mem_map] at hseen
    rw [texts_eq, List.forall_mem_map] at hcounts
    constructor
    case seen =>
      cases hreserved : p.slot.isReserved with
      | false => rfl
      | true => exact absurd hi (hseen p (List.mem_filter.mpr ⟨hp, hreserved⟩))
    case counts =>
      intro htext
      exact hcounts p (List.mem_filter.mpr ⟨hp, htext⟩) hi

end RecordType

namespace OwnedRecord

/-- The fields of a record are those ahead of the book levels and then those of each level. -/
theorem fields_eq (r : OwnedRecord) : r.fields = r.flatFields ++ r.levels.flatten := by
  rw [fields, bodyFields, flatFields, List.append_assoc]

/-- **The fields of two records have the same values if and only if the records agree on every byte
but the length, the reserved ones, and those behind the first NUL of a text.** The fields are those
ahead of the book levels and then those of all levels. -/
theorem values_fields_eq_iff {t : RecordType} {a b : Bytes} (ha : a.length = t.size)
    (hb : b.length = t.size) :
    let r : OwnedRecord := ⟨t, a, ha⟩
    let s : OwnedRecord := ⟨t, b, hb⟩
    r.fields = r.flatFields ++ r.levels.flatten ∧
      s.fields = s.flatFields ++ s.levels.flatten ∧
      (r.fields.map Field.value = s.fields.map Field.value ↔ ∀ i, t.Shows a i → a[i]? = b[i]?) := by
  intro r s
  refine ⟨r.fields_eq, s.fields_eq, ?_⟩
  rw [r.fields_eq_read, s.fields_eq_read]
  have hread := Layout.values_read_eq_iff (ha.trans t.width_layout.symm)
    (hb.trans t.width_layout.symm)
  simp only [RecordType.shows_layout_iff] at hread
  exact hread

/-- A symbol mapping whose texts end early, with free choice of the bytes that do not show. -/
def exampleMapping (units behind between : UInt8) : Bytes :=
  [units, 0x16, 1, 0, 7, 0, 0, 0] ++ List.replicate 8 0xFF ++
    Text.ofAscii "ESH3" ++ 0 :: List.replicate 17 behind ++
    Text.ofAscii "5482" ++ 0 :: List.replicate 17 behind ++
    List.replicate 4 between ++ List.replicate 16 0xFF

/-- Two mappings that differ in 39 bytes have the same fields, and agree on all the bytes shown. -/
theorem values_fields_eq_iff_exampleMapping :
    ∃ (ha : (exampleMapping 20 0 0).length = RecordType.symbolMapping.size)
      (hb : (exampleMapping 255 1 9).length = RecordType.symbolMapping.size),
      OwnedRecord.fields ⟨.symbolMapping, _, ha⟩ = OwnedRecord.fields ⟨.symbolMapping, _, hb⟩ ∧
      ∀ i, RecordType.symbolMapping.Shows (exampleMapping 20 0 0) i →
        (exampleMapping 20 0 0)[i]? = (exampleMapping 255 1 9)[i]? := by
  have ha : (exampleMapping 20 0 0).length = RecordType.symbolMapping.size := by decide
  have hb : (exampleMapping 255 1 9).length = RecordType.symbolMapping.size := by decide
  have hfields : OwnedRecord.fields ⟨.symbolMapping, _, ha⟩ =
      OwnedRecord.fields ⟨.symbolMapping, _, hb⟩ := by
    decide +kernel +revert
  refine ⟨ha, hb, hfields, ?_⟩
  exact (values_fields_eq_iff ha hb).2.2.mp (congrArg _ hfields)

end OwnedRecord

end MarketWire
