import MarketWire.Metadata.Parser
import MarketWire.Proofs.ScanSteps

/-!
# The size of a block

The size of a block is read off its first eight bytes, and each of these is judged as soon as it is
there. `announcedLength` says so without a scanner: the magic byte by byte, then the version, then
the frame length. What has been found out about the front of a stream, a fault or a size, is not
changed by bytes that arrive later.

## Main definitions

* `Metadata.signature` — what every block begins with.
* `Metadata.announcedLength` — the size of the block at the front of a byte string.

## Main results

* `Metadata.peekLength_eq` — it is what the scanner finds.
* `Metadata.announcedLength_append` — a verdict on the front of a stream is final.
* `Metadata.exists_run_scanBlock` — a block whose size is announced is read from its frame on.
-/

namespace MarketWire

namespace Metadata

/-- What every block begins with: the magic and the version. -/
def signature : Bytes := magic ++ [formatVersion]

/-- The first byte that differs from what is expected from `index` on, as far as both go. -/
def magicFault? (bs : Bytes) : (expected : Bytes) → (index : Nat) → Option Fault
  | [], _ => none
  | byte :: expected, index =>
    match bs[index]? with
    | none => none
    | some found =>
      if found = byte then magicFault? bs expected (index + 1) else some (.badMagic found index)

/-- The size of the block at the front of a byte string, as far as it can be told. -/
def announcedLength (bs : Bytes) : Except Fault (Option Nat) :=
  match magicFault? bs magic 0 with
  | some fault => .error fault
  | none =>
    match bs[magic.length]? with
    | none => .ok none
    | some version =>
      if version ≠ formatVersion then
        .error (.unsupportedVersion version)
      else if bs.length < prologueSize then
        .ok none
      else
        let frame := LittleEndian.decode (bs.window (magic.length + 1) 4)
        if frame < minFrameSize then .error (.shortFrame frame) else .ok (some (prologueSize + frame))

/-! ### What the scanner finds -/

theorem headD_window {bs : Bytes} {index : Nat} {byte : UInt8} (h : bs[index]? = some byte) :
    (bs.window index 1).headD 0 = byte := by
  obtain ⟨hlt, rfl⟩ := List.getElem?_eq_some_iff.mp h
  rw [Bytes.window_eq_take_drop (by omega), List.drop_eq_getElem_cons hlt]
  rfl

theorem looks_scanMagic (expected : Bytes) (index : Nat) (s : Scanner) :
    Scan.Looks (scanMagic s.rest.length expected index) s
      (match magicFault? s.rest expected index with
        | some fault => .error fault
        | none => .ok ()) := by
  induction expected generalizing index s with
  | nil => exact Scan.Looks.pure () s
  | cons byte expected ih =>
    rw [scanMagic, magicFault?]
    cases hget : s.rest[index]? with
    | none =>
      rw [if_neg (Nat.not_lt.mpr (List.getElem?_eq_none_iff.mp hget))]
      exact Scan.Looks.pure () s
    | some found =>
      rw [if_pos (List.getElem?_eq_some_iff.mp hget).1]
      refine (Scan.looks_look index 1 s).bind fun touches => ?_
      rw [headD_window hget]
      dsimp only
      split
      · exact ih (index + 1) { s with touches := touches }
      · exact Scan.Looks.throw _ _

theorem looks_scanLength (s : Scanner) :
    Scan.Looks (scanLength s.rest.length) s (announcedLength s.rest) := by
  have hmagic := looks_scanMagic magic 0 s
  rw [scanLength, announcedLength]
  cases hfault : magicFault? s.rest magic 0 with
  | some fault =>
    rw [hfault] at hmagic
    exact hmagic.bind_error _
  | none =>
    rw [hfault] at hmagic
    refine hmagic.bind fun touches => ?_
    cases hget : s.rest[magic.length]? with
    | none =>
      have := List.getElem?_eq_none_iff.mp hget
      rw [if_pos (by omega)]
      exact Scan.Looks.pure _ _
    | some version =>
      obtain ⟨hlt, -⟩ := List.getElem?_eq_some_iff.mp hget
      rw [if_neg (by omega)]
      refine (Scan.looks_look magic.length 1 _).bind fun touches => ?_
      rw [headD_window hget]
      dsimp only
      split
      · exact Scan.Looks.throw _ _
      · split
        · exact Scan.Looks.pure _ _
        · refine (Scan.looks_look (magic.length + 1) 4 _).bind fun touches => ?_
          dsimp only
          split
          · exact Scan.Looks.throw _ _
          · exact Scan.Looks.pure _ _

theorem peekLength_eq (bs : Bytes) : peekLength bs = announcedLength bs := by
  obtain ⟨touches, hrun⟩ := looks_scanLength (Scanner.start bs)
  exact congrArg Prod.fst hrun

/-- Behind the signature the next four bytes are the frame length. -/
theorem announcedLength_signature_append {word : Bytes} (hword : word.length = 4) (rest : Bytes) :
    announcedLength (signature ++ (word ++ rest)) =
      if LittleEndian.decode word < minFrameSize then
        .error (.shortFrame (LittleEndian.decode word))
      else
        .ok (some (prologueSize + LittleEndian.decode word)) := by
  generalize hbs : signature ++ (word ++ rest) = bs
  have hmagic : magicFault? bs magic 0 = none := by rw [← hbs]; rfl
  have hversion : bs[magic.length]? = some formatVersion := by rw [← hbs]; rfl
  have hlength : bs.length = prologueSize + rest.length := by
    rw [← hbs, List.length_append, List.length_append, hword, ← Nat.add_assoc]
    rfl
  have hwindow : Bytes.window bs (magic.length + 1) 4 = word := by
    rw [Bytes.window_eq_take_drop (by rw [hlength]; exact Nat.le_add_right _ _), ← hbs]
    exact List.take_left' hword
  rw [announcedLength, hmagic, hversion]
  dsimp only
  rw [if_neg (by simp), if_neg (by omega), hwindow]

/-! ### Verdicts are final -/

theorem magicFault?_append_of_some {bs expected : Bytes} {index : Nat} {fault : Fault}
    (h : magicFault? bs expected index = some fault) (more : Bytes) :
    magicFault? (bs ++ more) expected index = some fault := by
  induction expected generalizing index with
  | nil => cases h
  | cons byte expected ih =>
    rw [magicFault?] at h ⊢
    cases hget : bs[index]? with
    | none => simp [hget] at h
    | some found =>
      rw [hget] at h
      rw [List.getElem?_append_left (List.getElem?_eq_some_iff.mp hget).1, hget]
      dsimp only at h ⊢
      split at h
      · rename_i heq
        rw [if_pos heq]
        exact ih h
      · rename_i hne
        rw [if_neg hne]
        exact h

/-- Once all of the magic is there, what follows it does not matter. -/
theorem magicFault?_append {bs expected : Bytes} {index : Nat}
    (h : index + expected.length ≤ bs.length) (more : Bytes) :
    magicFault? (bs ++ more) expected index = magicFault? bs expected index := by
  induction expected generalizing index with
  | nil => rfl
  | cons byte expected ih =>
    rw [List.length_cons] at h
    rw [magicFault?, magicFault?, List.getElem?_append_left (by omega), ih (by omega)]

/-- **A verdict on the front of a stream is final.** -/
theorem announcedLength_append {bs : Bytes} (h : announcedLength bs ≠ .ok none) (more : Bytes) :
    announcedLength (bs ++ more) = announcedLength bs := by
  rw [announcedLength] at h
  rw [announcedLength, announcedLength]
  cases hfault : magicFault? bs magic 0 with
  | some fault => rw [magicFault?_append_of_some hfault]
  | none =>
    rw [hfault] at h
    cases hget : bs[magic.length]? with
    | none => simp [hget] at h
    | some version =>
      obtain ⟨hlt, -⟩ := List.getElem?_eq_some_iff.mp hget
      rw [magicFault?_append (by omega), hfault, List.getElem?_append_left hlt, hget]
      rw [hget] at h
      dsimp only at h ⊢
      split
      · rfl
      · rename_i hversion
        rw [if_neg hversion] at h
        -- Eight bytes were there, or nothing would have been found out.
        have hsize : ¬bs.length < prologueSize := fun hlt => h (if_pos hlt)
        rw [prologueSize] at hsize
        rw [prologueSize, if_neg hsize, if_neg (by rw [List.length_append]; omega),
          Bytes.window_append (by rw [magic]; simp only [List.length_cons, List.length_nil]; omega)]

/-- A size is announced by a whole prologue of the known version, and counts it. -/
theorem prologue_of_announcedLength {bs : Bytes} {size : Nat}
    (h : announcedLength bs = .ok (some size)) :
    bs[magic.length]? = some formatVersion ∧ prologueSize ≤ bs.length ∧
      prologueSize + minFrameSize ≤ size := by
  rw [announcedLength] at h
  split at h
  · cases h
  · split at h
    · cases h
    · rename_i version hget
      split at h
      · cases h
      · rename_i hversion
        split at h
        · cases h
        · dsimp only at h
          split at h
          · cases h
          · cases h
            rw [hget, Decidable.not_not.mp hversion]
            exact ⟨rfl, by omega, by omega⟩

/-- **A block whose size is announced is read from its frame on.** -/
theorem exists_run_scanBlock {bs : Bytes} {size : Nat} (h : announcedLength bs = .ok (some size))
    (hsize : size ≤ bs.length) :
    ∃ touches, (scanBlock bs.length).run.run (Scanner.start bs) =
      (scanFrame formatVersion).run.run ⟨bs.drop prologueSize, prologueSize, size, touches⟩ := by
  obtain ⟨hversion, -⟩ := prologue_of_announcedLength h
  have hlooks := looks_scanLength (Scanner.start bs)
  have hrest : (Scanner.start bs).rest = bs := rfl
  rw [hrest, h] at hlooks
  rw [scanBlock]
  obtain ⟨touches, hrun⟩ := hlooks.exists_run_bind _
  rw [hrun]
  dsimp only
  rw [if_neg (Nat.not_lt.mpr hsize)]
  obtain ⟨touches', hrun'⟩ := (Scan.looks_look magic.length 1 _).exists_run_bind _
  rw [hrun']
  dsimp only
  rw [hrest, headD_window hversion]
  exact ⟨touches', rfl⟩

end Metadata

end MarketWire
