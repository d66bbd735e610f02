import Mathlib.Data.List.Nodup
import MarketWire.Record.Basic

/-!
# Visits and members agree

The members of a record and the visits that show them are two lists, and a visit finds its member by
name. So a visit could take the member of another one, or take it as something of another width, and
every record would still have as many fields as its header row has names. That this is not so is said
once for every pair of lists: the visits take all members that are shown, in the order of their bytes
and each of them once, and read as many bytes as the member has.

Lists that agree can be put together to one row of slots, in which a member that is not shown is a
stretch of reserved bytes. Reading slot after slot is then the same as visiting, and no name has to be
looked up any more. Facts about places are proved about the row.

## Main definitions

* `Members.Agrees` — the visits take the members that are shown, one after another.
* `Slot`, `Layout`, `Layout.read` — a row of fields and reserved bytes, read from front to end.
* `Members.slots`, `RecordType.layout` — members and visits as one row.

## Main results

* `RecordType.agrees`, `Members.agrees_header`, `Members.agrees_bookLevel` — **the lists agree**.
* `OwnedRecord.fields_eq_read` — **visiting a record is reading its row**.
* `OwnedRecord.map_name_fields` — the fields of a record have the names of the header row.
-/

namespace MarketWire

/-! ### Agreement -/

/-- Whether a member is shown: the length in the header and the reserved bytes are not. -/
def Member.isShown : Member → Bool
  | .length => false
  | .reserved => false
  | _ => true

namespace Members

/-- The visits take the members that are shown, one after another. -/
structure Agrees (members : Members) (visits : List Visit) : Prop where
  /-- A name stands for one member. -/
  nodup : (members.map Prod.fst).Nodup
  /-- All members that are shown are visited in their order. -/
  order : visits.map Visit.member = (members.map Prod.fst).filter Member.isShown
  /-- A visit reads all bytes of its member and no others. -/
  fits : ∀ visit ∈ visits, ∀ m ∈ members, m.1 = visit.member →
    (visit.reading.kind m.2).width = m.2.width

theorem agrees_header : header.Agrees Visit.header where
  nodup := by decide
  order := rfl
  fits := by decide +kernel

theorem agrees_bookLevel (level : Nat) : bookLevel.Agrees (Visit.bookLevel level) where
  nodup := by decide
  order := rfl
  fits := by
    simp [Visit.bookLevel, bookLevel, Reading.kind, FieldKind.width, MemberType.width]

end Members

/-- **The visits of every type agree with its members.** -/
theorem RecordType.agrees (t : RecordType) : t.members.Agrees t.visits where
  nodup := by cases t <;> decide +kernel
  order := by cases t <;> rfl
  fits := by cases t <;> decide +kernel

namespace Members.Agrees

variable {name : Member} {type : MemberType} {rest : Members} {visits : List Visit}

/-- A member that is not shown is passed over, and no visit asks for it. -/
theorem skip (h : Agrees ((name, type) :: rest) visits) (hshown : name.isShown = false) :
    rest.Agrees visits ∧ ∀ visit ∈ visits, visit.member ≠ name := by
  obtain ⟨hname, hnodup⟩ := List.nodup_cons.mp h.nodup
  have horder : visits.map Visit.member = (rest.map Prod.fst).filter Member.isShown := by
    simpa [hshown] using h.order
  refine ⟨⟨hnodup, horder, fun visit hvisit m hm => h.fits visit hvisit m (.tail _ hm)⟩, ?_⟩
  intro visit hvisit heq
  have hmem := List.mem_map_of_mem (f := Visit.member) hvisit
  rw [horder] at hmem
  exact hname (heq ▸ (List.mem_filter.mp hmem).1)

/-- A member that is shown is taken by the first visit, and by no other one. -/
theorem take (h : Agrees ((name, type) :: rest) visits) (hshown : name.isShown = true) :
    ∃ visit later, visits = visit :: later ∧ visit.member = name ∧
      (visit.reading.kind type).width = type.width ∧ rest.Agrees later ∧
      ∀ other ∈ later, other.member ≠ name := by
  obtain ⟨hname, hnodup⟩ := List.nodup_cons.mp h.nodup
  have horder : visits.map Visit.member =
      name :: (rest.map Prod.fst).filter Member.isShown := by
    simpa [hshown] using h.order
  obtain ⟨visit, later, rfl, hmember, hlater⟩ := List.map_eq_cons_iff.mp horder
  refine ⟨visit, later, rfl, hmember, ?_, ⟨hnodup, hlater, ?_⟩, ?_⟩
  · exact h.fits visit List.mem_cons_self (name, type) List.mem_cons_self hmember.symm
  · exact fun other hother m hm => h.fits other (.tail _ hother) m (.tail _ hm)
  · intro other hother heq
    have hmem := List.mem_map_of_mem (f := Visit.member) hother
    rw [hlater] at hmem
    exact hname (heq ▸ (List.mem_filter.mp hmem).1)

end Members.Agrees

/-! ### Rows of slots -/

/-- A stretch of a record. -/
inductive Slot
  /-- A field. -/
  | field (name : Text) (kind : FieldKind)
  /-- So many bytes without meaning. -/
  | reserved (width : Nat)

/-- The number of bytes of a slot. -/
def Slot.width : Slot → Nat
  | .field _ kind => kind.width
  | .reserved width => width

/-- The slots of a record in the order of their bytes. -/
abbrev Layout := List Slot

namespace Layout

/-- The number of bytes that a layout covers. -/
def width : Layout → Nat
  | [] => 0
  | slot :: rest => slot.width + width rest

/-- The fields that the bytes hold, slot after slot. -/
def read : Layout → Bytes → List Field
  | [], _ => []
  | .field name kind :: rest, bs =>
    ⟨name, kind, kind.decode (bs.take kind.width)⟩ :: read rest (bs.drop kind.width)
  | .reserved width :: rest, bs => read rest (bs.drop width)

theorem width_append (first second : Layout) :
    width (first ++ second) = first.width + second.width := by
  induction first with
  | nil => simp [width]
  | cons slot rest ih => simp [width, ih, Nat.add_assoc]

/-- Layouts side by side are read side by side. -/
theorem read_append (first second : Layout) (bs : Bytes) :
    read (first ++ second) bs = first.read bs ++ second.read (bs.drop first.width) := by
  induction first generalizing bs with
  | nil => simp [read, width]
  | cons slot rest ih => cases slot <;> simp [read, width, Slot.width, ih]

end Layout

/-! ### Members and visits as one row -/

namespace Members

/-- The row that members and visits make up together. -/
def slots : Members → List Visit → Layout
  | [], _ => []
  | (_, type) :: rest, [] => .reserved type.width :: slots rest []
  | (name, type) :: rest, visit :: later =>
    if name.isShown then
      .field visit.name (visit.reading.kind type) :: slots rest later
    else
      .reserved type.width :: slots rest (visit :: later)

/-- A member that is not shown is a reserved slot. -/
theorem slots_of_not_isShown {name : Member} (hshown : name.isShown = false) (type : MemberType)
    (rest : Members) (visits : List Visit) :
    slots ((name, type) :: rest) visits = .reserved type.width :: slots rest visits := by
  cases visits with
  | nil => rfl
  | cons visit later => simp [slots, hshown]

variable {members : Members} {visits : List Visit}

/-- The row covers the members. -/
theorem width_slots (h : members.Agrees visits) : (members.slots visits).width = members.width := by
  induction members generalizing visits with
  | nil => rfl
  | cons m rest ih =>
    obtain ⟨name, type⟩ := m
    cases hshown : name.isShown with
    | false =>
      rw [slots_of_not_isShown hshown, Layout.width, ih (h.skip hshown).1]
      rfl
    | true =>
      obtain ⟨visit, later, rfl, -, hwidth, hrest, -⟩ := h.take hshown
      rw [slots, if_pos hshown, Layout.width, ih hrest, Slot.width, hwidth]
      rfl

/-- A name that is not the first one is looked up behind the first member. -/
theorem placeFrom?_cons_of_ne {name member : Member} (h : member ≠ name) (start : Nat)
    (type : MemberType) (rest : Members) :
    placeFrom? start ((name, type) :: rest) member = placeFrom? (start + type.width) rest member :=
  if_neg (Ne.symm h)

/-- Visiting members is reading their row, wherever the first of them lies. -/
theorem filterMap_placeFrom? (h : members.Agrees visits) (start : Nat) (bs : Bytes) :
    (visits.filterMap fun visit =>
        (members.placeFrom? start visit.member).map (visit.field · bs)) =
      (members.slots visits).read (bs.drop start) := by
  induction members generalizing start visits with
  | nil =>
    obtain rfl : visits = [] := List.map_eq_nil_iff.mp h.order
    rfl
  | cons m rest ih =>
    obtain ⟨name, type⟩ := m
    -- Names other than the first are found where they were, seen from the second member.
    have hbehind : ∀ {later : List Visit}, (∀ visit ∈ later, visit.member ≠ name) →
        (later.filterMap fun visit =>
          (placeFrom? start ((name, type) :: rest) visit.member).map (visit.field · bs)) =
        later.filterMap fun visit =>
          (placeFrom? (start + type.width) rest visit.member).map (visit.field · bs) := by
      intro later hother
      refine List.filterMap_congr fun visit hvisit => ?_
      rw [placeFrom?_cons_of_ne (hother visit hvisit)]
    cases hshown : name.isShown with
    | false =>
      obtain ⟨hrest, hother⟩ := h.skip hshown
      rw [hbehind hother, ih hrest, slots_of_not_isShown hshown, Layout.read, List.drop_drop]
    | true =>
      obtain ⟨visit, later, rfl, hmember, hwidth, hrest, hother⟩ := h.take hshown
      have hplace : placeFrom? start ((name, type) :: rest) visit.member = some ⟨start, type⟩ :=
        if_pos hmember.symm
      rw [List.filterMap_cons, hplace, Option.map_some, hbehind hother, ih hrest, slots,
        if_pos hshown, Layout.read, hwidth, List.drop_drop]
      rfl

/-- **Visiting members is reading their row.** -/
theorem read_eq (h : members.Agrees visits) (bs : Bytes) :
    members.read visits bs = (members.slots visits).read bs :=
  filterMap_placeFrom? h 0 bs

/-- Every visit shows a field under its own name. -/
theorem map_name_read (h : members.Agrees visits) (bs : Bytes) :
    (members.read visits bs).map Field.name = visits.map Visit.name := by
  rw [read_eq h]
  induction members generalizing visits bs with
  | nil =>
    obtain rfl : visits = [] := List.map_eq_nil_iff.mp h.order
    rfl
  | cons m rest ih =>
    obtain ⟨name, type⟩ := m
    cases hshown : name.isShown with
    | false =>
      rw [slots_of_not_isShown hshown, Layout.read]
      exact ih (h.skip hshown).1 _
    | true =>
      obtain ⟨visit, later, rfl, -, -, hrest, -⟩ := h.take hshown
      rw [slots, if_pos hshown, Layout.read, List.map_cons, List.map_cons, ih hrest]

end Members

/-! ### Records -/

namespace Layout

/-- The levels of an order book down to the given depth. -/
def book (depth : Nat) : Layout :=
  (List.range depth).flatMap fun level => Members.bookLevel.slots (Visit.bookLevel level)

theorem book_succ (depth : Nat) :
    book (depth + 1) = book depth ++ Members.bookLevel.slots (Visit.bookLevel depth) := by
  simp [book, List.range_succ]

theorem width_book (depth : Nat) : (book depth).width = depth * Members.bookLevel.width := by
  induction depth with
  | zero => rw [Nat.zero_mul]; rfl
  | succ depth ih =>
    rw [book_succ, width_append, ih, Members.width_slots (Members.agrees_bookLevel depth),
      Nat.succ_mul]

/-- The levels of a book are read one behind the other. -/
theorem read_book (depth : Nat) (bs : Bytes) :
    (book depth).read bs =
      ((List.range depth).map fun level =>
        (Members.bookLevel.slots (Visit.bookLevel level)).read
          (bs.drop (level * Members.bookLevel.width))).flatten := by
  induction depth with
  | zero => rfl
  | succ depth ih =>
    rw [book_succ, read_append, width_book, ih, List.range_succ, List.map_append,
      List.flatten_append]
    simp

end Layout

namespace RecordType

/-- The row of a record: the header, the body, and the book levels. -/
def layout (t : RecordType) : Layout :=
  Members.header.slots Visit.header ++ (t.members.slots t.visits ++ Layout.book t.depth)

/-- The slots of a record fill it exactly. -/
theorem width_layout (t : RecordType) : t.layout.width = t.size := by
  rw [layout, Layout.width_append, Layout.width_append, Members.width_slots Members.agrees_header,
    Members.width_slots t.agrees, Layout.width_book, ← t.width_members, Nat.add_assoc]

end RecordType

namespace OwnedRecord

variable (r : OwnedRecord)

/-- **Visiting a record is reading its row.** -/
theorem fields_eq_read : r.fields = r.type.layout.read r.bytes := by
  have hheader : r.headerFields = (Members.header.slots Visit.header).read r.bytes :=
    Members.read_eq Members.agrees_header r.bytes
  have hown : r.ownFields = (r.type.members.slots r.type.visits).read (r.bytes.drop headerSize) :=
    Members.read_eq r.type.agrees _
  have hlevels : r.levels.flatten = (Layout.book r.type.depth).read
      (r.bytes.drop (headerSize + r.type.members.width)) := by
    simp only [levels, Layout.read_book, List.drop_drop,
      Members.read_eq (Members.agrees_bookLevel _)]
  have hwidth : (Members.header.slots Visit.header).width = headerSize :=
    Members.width_slots Members.agrees_header
  rw [fields, bodyFields, hheader, hown, hlevels, RecordType.layout, Layout.read_append,
    Layout.read_append, hwidth, Members.width_slots r.type.agrees, List.drop_drop]

/-- The fields of a record have the names of the header row. -/
theorem map_name_fields : r.fields.map Field.name = r.type.fieldNames := by
  have hlevels : r.levels.flatten.map Field.name =
      ((List.range r.type.depth).flatMap Visit.bookLevel).map Visit.name := by
    simp only [levels, List.map_flatten, List.map_map, Function.comp_def,
      Members.map_name_read (Members.agrees_bookLevel _), List.flatMap, List.map_flatten]
  rw [fields, bodyFields, List.map_append, List.map_append, headerFields, ownFields, hlevels,
    Members.map_name_read Members.agrees_header, Members.map_name_read r.type.agrees,
    RecordType.fieldNames, List.map_append, List.map_append, List.append_assoc]

end OwnedRecord

end MarketWire
