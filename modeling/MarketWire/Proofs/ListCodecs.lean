import MarketWire.Metadata.Encoder
import MarketWire.Proofs.ScanSteps

/-!
# Lists behind their counts

A writer and a reader of one kind of element belong together if the reader gives back, up to a
normal form, what the writer was given, whatever the bytes are followed by. From elements the law
goes over to lists behind their counts. There it needs two bounds: the count must fit into its four
bytes, and the reader must believe it. Both follow from the size of what was written, because no
element is written in fewer bytes than the reader assumes.

## Main definitions

* `Metadata.RoundTrips` — a writer and a reader that belong together.

## Main results

* `Metadata.RoundTrips.list` — the law goes over to lists.
-/

namespace MarketWire

/-- A step that is followed by another one has succeeded if both have. -/
theorem exists_of_bind_eq_ok {α β : Type} {first : Except Fault α} {next : α → Except Fault β} {b : β}
    (h : (first >>= next) = .ok b) : ∃ a, first = .ok a ∧ next a = .ok b := by
  cases first with
  | error _ => cases h
  | ok a => exact ⟨a, rfl, h⟩

namespace Metadata

variable {α : Type} {encode : α → Except Fault Bytes} {scan : Scan α} {normalize : α → α} {unit : Nat}

/-- What `encode` writes, `scan` reads back up to `normalize`. Nothing takes fewer than `unit`
bytes. -/
structure RoundTrips (encode : α → Except Fault Bytes) (scan : Scan α) (normalize : α → α)
    (unit : Nat) : Prop where
  /-- What is written within the bounds of a block is read back. -/
  yields : ∀ {a bs}, encode a = .ok bs → bs.length ≤ maxFrameSize → Scan.Yields scan bs (normalize a)
  /-- An element takes at least so many bytes. -/
  unit_le : ∀ {a bs}, encode a = .ok bs → unit ≤ bs.length

/-! ### Elements in a row -/

/-- What is written for several elements is what is written for each of them. -/
theorem parts_of_concatEncoded {as : List α} {bs : Bytes} (h : concatEncoded encode as = .ok bs) :
    ∃ parts, List.Forall₂ (fun a part => encode a = .ok part) as parts ∧ parts.flatten = bs := by
  induction as generalizing bs with
  | nil =>
    cases h
    exact ⟨[], .nil, rfl⟩
  | cons a as ih =>
    obtain ⟨first, hfirst, h⟩ := exists_of_bind_eq_ok h
    obtain ⟨others, hothers, h⟩ := exists_of_bind_eq_ok h
    obtain ⟨parts, hparts, rfl⟩ := ih hothers
    cases h
    exact ⟨first :: parts, .cons hfirst hparts, rfl⟩

theorem RoundTrips.yields_parts (h : RoundTrips encode scan normalize unit) {as : List α}
    {parts : List Bytes} (hparts : List.Forall₂ (fun a part => encode a = .ok part) as parts)
    (hsize : parts.flatten.length ≤ maxFrameSize) :
    List.Forall₂ (Scan.Yields scan) parts (as.map normalize) := by
  induction hparts with
  | nil => exact .nil
  | cons hfirst _ ih =>
    rw [List.flatten_cons, List.length_append] at hsize
    exact .cons (h.yields hfirst (by omega)) (ih (by omega))

/-- A count that the reader believes. -/
theorem RoundTrips.count_mul_unit_le (h : RoundTrips encode scan normalize unit) {as : List α}
    {parts : List Bytes} (hparts : List.Forall₂ (fun a part => encode a = .ok part) as parts) :
    as.length * unit ≤ parts.flatten.length := by
  induction hparts with
  | nil => simp
  | cons hfirst _ ih =>
    have hunit := h.unit_le hfirst
    rw [List.length_cons, Nat.succ_mul, List.flatten_cons, List.length_append]
    omega

/-! ### Counts -/

/-- A count is read back as long as it fits into its four bytes. -/
theorem yields_count (short : Nat → Fault) {count : Nat} (h : count ≤ maxFrameSize) :
    Scan.Yields (Scan.word short) (LittleEndian.encode countSize count) count := by
  have hmodulus : LittleEndian.modulus countSize = maxFrameSize + 1 := rfl
  have hword := Scan.yields_word short (LittleEndian.length_encode countSize count)
  rwa [LittleEndian.decode_encode, hmodulus, Nat.mod_eq_of_lt (by omega)] at hword

/-- **The law goes over to lists.** -/
theorem RoundTrips.list (h : RoundTrips encode scan normalize unit) (hunit : 0 < unit)
    (short : Nat → Fault) (excess : Nat → Nat → Fault) :
    RoundTrips (encodeList encode) (scanList scan unit short excess) (List.map normalize)
      countSize := by
  constructor
  case yields =>
    intro as bs hbs hsize
    obtain ⟨elements, helements, hbs⟩ := exists_of_bind_eq_ok hbs
    cases hbs
    obtain ⟨parts, hparts, rfl⟩ := parts_of_concatEncoded helements
    rw [List.length_append, LittleEndian.length_encode] at hsize
    have hbelieved := h.count_mul_unit_le hparts
    have hcount : as.length ≤ as.length * unit := Nat.le_mul_of_pos_right _ hunit
    have hrow := Scan.yields_repeated (h.yields_parts hparts (by omega))
    rw [List.length_map] at hrow
    exact (yields_count short (by omega)).bind (hrow.ensure hbelieved)
  case unit_le =>
    intro as bs hbs
    obtain ⟨elements, -, hbs⟩ := exists_of_bind_eq_ok hbs
    cases hbs
    rw [List.length_append, LittleEndian.length_encode]
    omega

end Metadata

end MarketWire
