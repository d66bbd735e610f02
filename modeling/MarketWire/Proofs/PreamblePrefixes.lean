import MarketWire.Proofs.PreambleLength

/-!
# Fronts of blocks

A stream is refused at the first byte after which it cannot be metadata any more, and not before. So
its front is in one of three states. It has been refused, and every continuation is refused for the
same reason. The size of its block is known, and stays what it is. Or it agrees with the signature as
far as both go and is shorter than a prologue; then some continuation has a size, since a frame length
of which a byte is missing can still become large enough.

## Main definitions

* `Metadata.AgreesWithSignature` — as far as a byte string goes, a block may begin with it.

## Main results

* `Metadata.announcedLength_eq_ok_none_iff` — when nothing is known yet.
* `Metadata.exists_announcedLength_append` — a front of which nothing is known can be completed.
* `Metadata.peekLength_early_and_final` — **fronts are refused as early as possible, and for good**.
-/

namespace MarketWire

namespace Metadata

variable {bs : Bytes}

/-- The byte string and the signature agree as far as both go. -/
def AgreesWithSignature (bs : Bytes) : Prop :=
  bs <+: signature ∨ signature <+: bs

/-! ### Nothing is known yet -/

/-- No byte differs exactly if one of the two is the front of the other. -/
theorem magicFault?_eq_none_iff {expected : Bytes} {index : Nat} :
    magicFault? bs expected index = none ↔
      bs.drop index <+: expected ∨ expected <+: bs.drop index := by
  induction expected generalizing index with
  | nil => exact iff_of_true rfl (.inr List.nil_prefix)
  | cons byte expected ih =>
    rw [magicFault?]
    cases hget : bs[index]? with
    | none =>
      rw [List.drop_eq_nil_of_le (List.getElem?_eq_none_iff.mp hget)]
      exact iff_of_true rfl (.inl List.nil_prefix)
    | some found =>
      obtain ⟨hlt, hfound⟩ := List.getElem?_eq_some_iff.mp hget
      rw [List.drop_eq_getElem_cons hlt, hfound, List.cons_prefix_cons, List.cons_prefix_cons]
      dsimp only
      by_cases hbyte : found = byte
      · rw [if_pos hbyte, ih]
        simp [hbyte]
      · rw [if_neg hbyte]
        simp [hbyte, Ne.symm hbyte]

/-- One more byte is expected: nothing differs before it, and neither does the byte in its place. -/
theorem magicFault?_concat_eq_none_iff {expected : Bytes} {index : Nat} {byte : UInt8} :
    magicFault? bs (expected ++ [byte]) index = none ↔
      magicFault? bs expected index = none ∧
        ∀ found ∈ bs[index + expected.length]?, found = byte := by
  induction expected generalizing index with
  | nil =>
    rw [List.nil_append, magicFault?, magicFault?]
    cases hget : bs[index]? with
    | none => simp
    | some found => by_cases hbyte : found = byte <;> simp [magicFault?, hbyte]
  | cons first expected ih =>
    rw [List.cons_append, magicFault?, magicFault?]
    cases hget : bs[index]? with
    | none =>
      -- Behind the end there is no byte that could differ.
      have hend : bs.length ≤ index := List.getElem?_eq_none_iff.mp hget
      rw [List.getElem?_eq_none (by omega)]
      simp
    | some found =>
      by_cases hfirst : found = first
      · simp only [hfirst, if_true]
        rw [ih, List.length_cons, Nat.add_right_comm, Nat.add_assoc]
      · simp [hfirst]

theorem agreesWithSignature_iff :
    AgreesWithSignature bs ↔
      magicFault? bs magic 0 = none ∧ ∀ version ∈ bs[magic.length]?, version = formatVersion := by
  have hwhole : AgreesWithSignature bs ↔ magicFault? bs signature 0 = none := by
    rw [magicFault?_eq_none_iff, List.drop_zero, AgreesWithSignature]
  rw [hwhole, signature, magicFault?_concat_eq_none_iff, Nat.zero_add]

/-- **Nothing is known** of a byte string that is shorter than a prologue and agrees with the
signature, and of no other. -/
theorem announcedLength_eq_ok_none_iff :
    announcedLength bs = .ok none ↔ bs.length < prologueSize ∧ AgreesWithSignature bs := by
  rw [agreesWithSignature_iff, announcedLength]
  cases hfault : magicFault? bs magic 0 with
  | some fault => simp
  | none =>
    cases hget : bs[magic.length]? with
    | none =>
      have hshort : bs.length ≤ magic.length := List.getElem?_eq_none_iff.mp hget
      have hmagic : magic.length < prologueSize := by decide
      simp [Nat.lt_of_le_of_lt hshort hmagic]
    | some version =>
      by_cases hversion : version = formatVersion
      · by_cases hsize : bs.length < prologueSize
        · simp [hversion, hsize]
        · simp only [hversion, hsize, ne_eq, not_true_eq_false, if_false]
          split <;> simp
      · simp [hversion]

/-! ### Completing a front -/

/-- **A front of which nothing is known can be completed.** Only bytes of ones are put behind the
signature, and a frame length with one of them in it is large enough. -/
theorem exists_announcedLength_append (h : announcedLength bs = .ok none) :
    ∃ more size, announcedLength (bs ++ more) = .ok (some size) := by
  obtain ⟨hshort, hagrees⟩ := announcedLength_eq_ok_none_iff.mp h
  -- Both ways there are four bytes behind the signature in the end.
  obtain ⟨more, word, hword, hones, hbs⟩ : ∃ more word : Bytes, word.length = 4 ∧
      0xFF ∈ word ∧ bs ++ more = signature ++ word := by
    rcases hagrees with ⟨missing, hmissing⟩ | ⟨part, hpart⟩
    · refine ⟨missing ++ List.replicate 4 0xFF, List.replicate 4 0xFF, rfl, by decide, ?_⟩
      rw [← List.append_assoc, hmissing]
    · have hsignature : signature.length = 4 := rfl
      rw [← hpart, List.length_append, hsignature, prologueSize] at hshort
      refine ⟨List.replicate (4 - part.length) 0xFF, part ++ List.replicate (4 - part.length) 0xFF,
        ?_, ?_, ?_⟩
      · rw [List.length_append, List.length_replicate]
        omega
      · exact List.mem_append_right _ (List.mem_replicate.mpr ⟨by omega, rfl⟩)
      · rw [← List.append_assoc, hpart]
  have hlarge : 255 ≤ LittleEndian.decode word := LittleEndian.toNat_le_decode hones
  have hroom : ¬LittleEndian.decode word < minFrameSize :=
    Nat.not_lt.mpr (Nat.le_trans (by decide) hlarge)
  refine ⟨more, prologueSize + LittleEndian.decode word, ?_⟩
  rw [hbs, ← List.append_nil word, announcedLength_signature_append hword, if_neg hroom,
    List.append_nil]

/-- **Fronts are refused as early as possible, and for good.** A front is refused exactly if no
continuation of it has a size, and then every continuation is refused for the same reason. A size that
is known is that of every continuation, and eight bytes are there by then. Nothing is known exactly
while fewer are there and they agree with the magic and the version as far as they go. -/
theorem peekLength_early_and_final (front : Bytes) :
    ((∃ fault, peekLength front = .error fault) ↔
        ¬∃ more size, peekLength (front ++ more) = .ok (some size)) ∧
      (∀ fault, peekLength front = .error fault →
        ∀ more, peekLength (front ++ more) = .error fault) ∧
      (∀ size, peekLength front = .ok (some size) →
        prologueSize ≤ front.length ∧ ∀ more, peekLength (front ++ more) = .ok (some size)) ∧
      (peekLength front = .ok none ↔
        front.length < prologueSize ∧ (front <+: signature ∨ signature <+: front)) := by
  simp only [peekLength_eq]
  have hfinal : ∀ verdict, announcedLength front = verdict → verdict ≠ .ok none →
      ∀ more, announcedLength (front ++ more) = verdict := by
    rintro verdict rfl hverdict more
    exact announcedLength_append hverdict more
  refine ⟨⟨?refused, ?early⟩, ?fault, ?size, announcedLength_eq_ok_none_iff⟩
  case refused =>
    rintro ⟨fault, hfault⟩ ⟨more, size, hsize⟩
    rw [hfinal _ hfault nofun more] at hsize
    cases hsize
  case early =>
    intro hnone
    cases hfront : announcedLength front with
    | error fault => exact ⟨fault, rfl⟩
    | ok size? =>
      cases size? with
      | none => exact absurd (exists_announcedLength_append hfront) hnone
      | some size => exact absurd ⟨[], size, by rw [List.append_nil, hfront]⟩ hnone
  case fault => exact fun fault hfault => hfinal _ hfault nofun
  case size => exact fun size hsize =>
    ⟨(prologue_of_announcedLength hsize).2.1, hfinal _ hsize nofun⟩

end Metadata

end MarketWire
