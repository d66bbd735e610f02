import MarketWire.Convert.Options

/-!
# Output files named after input files

An output file that is not named stands beside the input file and has its name, with the extension of
the encoding in place of the one that was there. The encoding can then be told from the name, and it
does not matter how often an extension was put in place of another.

Names with dots at strange places need no exceptions here. Whatever the name is, what is kept of it is
not empty and holds no separator, so the dot that is put behind it is the last one and not the first
character; and as more follows that dot, the result is not one of the two names that stand for
directories. Only a path without a last name is different: there the new extension would be all of the
name, and so none.

## Main definitions

* `Path.folder` — a path up to its last separator.
* `Path.IsExtension` — what is read off again as an extension wherever it is put.

## Main results

* `Path.folder_append_fileName` — a path is its folder and its name.
* `Path.extensionOfName_eq_cons_iff` — **the rule** for extensions.
* `Path.exists_replaceExtension_eq` — what is kept of a path whose extension is replaced.
* `Path.extension_replaceExtension` — the extension that was put in place is read off again.
* `Path.replaceExtension_replaceExtension` — the last replacement counts.
* `Convert.inferEncoding_defaultOutputPath` — the name of the output file tells the encoding.
-/

namespace MarketWire

namespace Path

/-! ### The last occurrence of a byte -/

section LastOccurrence

variable {b : UInt8} {text behind : Text}

theorem behindLast_of_notMem (h : b ∉ text) : behindLast b text = text := by
  have hkept : ∀ c ∈ text.reverse, (c != b) = true := fun c hmem =>
    bne_iff_ne.mpr fun hc => h (hc ▸ List.mem_reverse.mp hmem)
  rw [behindLast, ← List.append_nil text.reverse, List.takeWhile_append_of_pos hkept]
  simp

theorem behindLast_append_cons (h : b ∉ behind) (front : Text) :
    behindLast b (front ++ b :: behind) = behind := by
  have hkept : ∀ c ∈ behind.reverse, (c != b) = true := fun c hmem =>
    bne_iff_ne.mpr fun hc => h (hc ▸ List.mem_reverse.mp hmem)
  rw [behindLast, List.reverse_append, List.reverse_cons, List.append_assoc,
    List.takeWhile_append_of_pos hkept]
  simp

/-- A byte that occurs has a last occurrence. -/
theorem exists_eq_append_cons (h : b ∈ text) :
    ∃ front behind, text = front ++ b :: behind ∧ b ∉ behind := by
  obtain ⟨ahead, rest, hsplit, hahead⟩ := List.eq_append_cons_of_mem (List.mem_reverse.mpr h)
  refine ⟨rest.reverse, ahead.reverse, ?_, by simpa using hahead⟩
  rw [← List.reverse_reverse text, hsplit]
  simp

end LastOccurrence

/-! ### Folders -/

/-- A path up to its last separator, which is included. -/
def folder (path : Text) : Text :=
  path.take (path.length - (fileName path).length)

/-- A text that something may be in: it is empty, or ends with a separator. -/
def IsFolder (text : Text) : Prop :=
  text = [] ∨ ∃ front, text = front ++ [separator]

section Folders

variable {front name : Text}

/-- A path is a folder and the name of something in it. -/
theorem exists_eq_folder_append (path : Text) :
    ∃ front name, IsFolder front ∧ separator ∉ name ∧ path = front ++ name := by
  by_cases hmem : separator ∈ path
  · obtain ⟨front, name, rfl, hname⟩ := exists_eq_append_cons hmem
    exact ⟨front ++ [separator], name, .inr ⟨front, rfl⟩, hname, by simp⟩
  · exact ⟨[], path, .inl rfl, hmem, rfl⟩

theorem fileName_append (hfront : IsFolder front) (hname : separator ∉ name) :
    fileName (front ++ name) = name := by
  rcases hfront with rfl | ⟨front, rfl⟩
  · exact behindLast_of_notMem hname
  · rw [List.append_assoc]
    exact behindLast_append_cons hname front

theorem folder_append (hfront : IsFolder front) (hname : separator ∉ name) :
    folder (front ++ name) = front := by
  rw [folder, fileName_append hfront hname, List.length_append, Nat.add_sub_cancel,
    List.take_left' rfl]

/-- A path is its folder and its name. -/
theorem folder_append_fileName (path : Text) : folder path ++ fileName path = path := by
  obtain ⟨front, name, hfront, hname, rfl⟩ := exists_eq_folder_append path
  rw [folder_append hfront hname, fileName_append hfront hname]

/-- There is a name at the end of every path that is not empty and does not end with a separator. -/
theorem fileName_ne_nil_iff {path : Text} :
    fileName path ≠ [] ↔ path ≠ [] ∧ path.getLast? ≠ some separator := by
  obtain ⟨front, name, hfront, hname, rfl⟩ := exists_eq_folder_append path
  rw [fileName_append hfront hname]
  cases hlast : name.getLast? with
  | none =>
    rw [List.getLast?_eq_none_iff.mp hlast, List.append_nil]
    rcases hfront with rfl | ⟨front, rfl⟩ <;> simp
  | some last =>
    have hmem : last ∈ name := List.mem_of_getLast? hlast
    have hname' : name ≠ [] := List.ne_nil_of_mem hmem
    refine iff_of_true hname' ⟨List.append_ne_nil_of_right_ne_nil _ hname', ?_⟩
    rw [List.getLast?_append, hlast]
    rintro ⟨⟩
    exact hname hmem

end Folders

/-! ### Extensions of names -/

section Names

variable {name stem suffix : Text}

/-- A dot behind something else begins the extension if no dot follows. -/
theorem extensionOfName_append (hstem : stem ≠ []) (hsuffix : dot ∉ suffix)
    (hdots : stem ++ dot :: suffix ≠ [dot, dot]) :
    extensionOfName (stem ++ dot :: suffix) = dot :: suffix := by
  have hlength : 0 < stem.length := List.length_pos_iff.mpr hstem
  rw [extensionOfName, behindLast_append_cons hsuffix]
  refine if_neg (not_or.mpr ⟨hdots, ?_⟩)
  rw [List.length_append, List.length_cons]
  omega

/-- **The rule for extensions.** A name has one exactly if there is a dot in it other than as the first
character, and the name is not that of two dots. The extension begins at the last dot. -/
theorem extensionOfName_eq_cons_iff :
    extensionOfName name = dot :: suffix ↔
      name ≠ [dot, dot] ∧ dot ∉ suffix ∧ ∃ stem, stem ≠ [] ∧ name = stem ++ dot :: suffix := by
  constructor
  · intro h
    by_cases hmem : dot ∈ name
    · obtain ⟨stem, behind, rfl, hbehind⟩ := exists_eq_append_cons hmem
      rw [extensionOfName, behindLast_append_cons hbehind] at h
      split at h
      · cases h
      · rename_i hrule
        obtain ⟨hdots, hstem⟩ := not_or.mp hrule
        obtain rfl : behind = suffix := (List.cons.inj h).2
        exact ⟨hdots, hbehind, stem, fun hempty => hstem (by simp [hempty]), rfl⟩
    · rw [extensionOfName, behindLast_of_notMem hmem, if_pos (.inr (Nat.le_succ _))] at h
      cases h
  · rintro ⟨hdots, hsuffix, stem, hstem, rfl⟩
    exact extensionOfName_append hstem hsuffix hdots

/-- A name that is not empty is something that is not empty and its extension. -/
theorem exists_eq_append_extension (hname : name ≠ []) :
    ∃ stem own, stem ≠ [] ∧ name = stem ++ own ∧ extensionOfName name = own := by
  cases hextension : extensionOfName name with
  | nil => exact ⟨name, [], hname, (List.append_nil _).symm, rfl⟩
  | cons first suffix =>
    obtain rfl : first = dot := by
      rw [extensionOfName] at hextension
      split at hextension <;> cases hextension
      rfl
    obtain ⟨-, -, stem, hstem, hsplit⟩ := extensionOfName_eq_cons_iff.mp hextension
    exact ⟨stem, dot :: suffix, hstem, hsplit, rfl⟩

end Names

/-! ### Extensions of paths -/

/-- A dot and some more without dots and separators, so that it is an extension wherever it is put and
never the second half of the name of two dots. -/
def IsExtension (text : Text) : Prop :=
  ∃ suffix, suffix ≠ [] ∧ dot ∉ suffix ∧ separator ∉ suffix ∧ text = dot :: suffix

section Paths

variable {path front stem own replacement : Text}

/-- With it behind a name there is still only a name. -/
theorem IsExtension.separator_notMem_append (h : IsExtension own) (hstem : separator ∉ stem) :
    separator ∉ stem ++ own := by
  obtain ⟨suffix, -, -, hseparator, rfl⟩ := h
  exact List.not_mem_append hstem (List.not_mem_cons_of_ne_of_not_mem (by decide) hseparator)

/-- Behind something that is not empty it is the extension of the name. -/
theorem IsExtension.extensionOfName_append (h : IsExtension own) (hstem : stem ≠ []) :
    extensionOfName (stem ++ own) = own := by
  obtain ⟨suffix, hsuffix, hdot, -, rfl⟩ := h
  refine Path.extensionOfName_append hstem hdot fun hdots => ?_
  -- The name of two dots would leave nothing behind the second one.
  have hlength := congrArg List.length hdots
  have hstem' : 0 < stem.length := List.length_pos_iff.mpr hstem
  have hsuffix' : 0 < suffix.length := List.length_pos_iff.mpr hsuffix
  simp only [List.length_append, List.length_cons, List.length_nil] at hlength
  omega

/-- The extension of the name is what is replaced. -/
theorem replaceExtension_append (hfront : IsFolder front) (hseparator : separator ∉ stem ++ own)
    (hown : extensionOfName (stem ++ own) = own) (replacement : Text) :
    replaceExtension (front ++ (stem ++ own)) replacement = front ++ (stem ++ replacement) := by
  have hlength : (front ++ (stem ++ own)).length - own.length = (front ++ stem).length := by
    simp only [List.length_append]
    omega
  rw [replaceExtension, extension, fileName_append hfront hseparator, hown, hlength,
    ← List.append_assoc, List.take_left' rfl, List.append_assoc]

/-- **What is kept** of a path whose extension is replaced: the folder, and something of the name that
is not empty. -/
theorem exists_replaceExtension_eq (hname : fileName path ≠ []) :
    ∃ front stem, IsFolder front ∧ stem ≠ [] ∧ separator ∉ stem ∧ folder path = front ∧
      ∀ replacement, replaceExtension path replacement = front ++ (stem ++ replacement) := by
  obtain ⟨front, name, hfront, hseparator, rfl⟩ := exists_eq_folder_append path
  rw [fileName_append hfront hseparator] at hname
  obtain ⟨stem, own, hstem, rfl, hown⟩ := exists_eq_append_extension hname
  exact ⟨front, stem, hfront, hstem, fun hmem => hseparator (List.mem_append_left _ hmem),
    folder_append hfront hseparator, replaceExtension_append hfront hseparator hown⟩

/-- A replacement leaves the folder as it is. -/
theorem folder_replaceExtension (hname : fileName path ≠ []) (h : IsExtension replacement) :
    folder (replaceExtension path replacement) = folder path := by
  obtain ⟨front, stem, hfront, hstem, hseparator, hfolder, hkept⟩ := exists_replaceExtension_eq hname
  rw [hkept, folder_append hfront (h.separator_notMem_append hseparator), hfolder]

/-- The extension that was put in place is read off again. -/
theorem extension_replaceExtension (hname : fileName path ≠ []) (h : IsExtension replacement) :
    extension (replaceExtension path replacement) = replacement := by
  obtain ⟨front, stem, hfront, hstem, hseparator, -, hkept⟩ := exists_replaceExtension_eq hname
  rw [hkept, extension, fileName_append hfront (h.separator_notMem_append hseparator),
    h.extensionOfName_append hstem]

/-- The last replacement counts. -/
theorem replaceExtension_replaceExtension (hname : fileName path ≠ []) (h : IsExtension replacement)
    (last : Text) :
    replaceExtension (replaceExtension path replacement) last = replaceExtension path last := by
  obtain ⟨front, stem, hfront, hstem, hseparator, -, hkept⟩ := exists_replaceExtension_eq hname
  rw [hkept, hkept, replaceExtension_append hfront (h.separator_notMem_append hseparator)
    (h.extensionOfName_append hstem)]

end Paths

end Path

namespace Convert

/-- The extension of the files in an encoding. -/
theorem isExtension_ofEncoding (encoding : Encoding) :
    Path.IsExtension (Text.ofAscii (if encoding = .json then ".json" else ".csv")) := by
  cases encoding
  · exact ⟨Text.ofAscii "csv", by decide⟩
  · exact ⟨Text.ofAscii "csv", by decide⟩
  · exact ⟨Text.ofAscii "json", by decide⟩

/-- **The name of the output file tells the encoding.** Let an input file have a name, with whatever
dots in it. The encoding is inferred from the output file that is named after it, which stands in the
same folder, and an output file named after that one is named after the input file. -/
theorem inferEncoding_defaultOutputPath {input : Text} (hinput : input ≠ [])
    (hend : input.getLast? ≠ some Path.separator) {encoding : Encoding} (hencoding : encoding ≠ .infer)
    (o : Options) (other : Encoding) :
    let output := defaultOutputPath input encoding
    ({ o with encoding := .infer, output := some output } : Options).inferEncoding = .ok encoding ∧
      Path.folder output = Path.folder input ∧
      defaultOutputPath output other = defaultOutputPath input other := by
  have hname : Path.fileName input ≠ [] := Path.fileName_ne_nil_iff.mpr ⟨hinput, hend⟩
  have hextension := isExtension_ofEncoding encoding
  refine ⟨?_, Path.folder_replaceExtension hname hextension,
    Path.replaceExtension_replaceExtension hname hextension _⟩
  have hread := Path.extension_replaceExtension hname hextension
  rw [Options.inferEncoding, if_neg (by simp), Option.getD_some, defaultOutputPath, hread]
  cases encoding with
  | infer => exact absurd rfl hencoding
  | csv => rfl
  | json => rfl

/-- The parent folder is a name of dots, and a name that ends with a dot loses it. -/
theorem inferEncoding_defaultOutputPath_dots :
    let input := Text.ofAscii "a.b/.."
    let output := defaultOutputPath input .json
    input ≠ [] ∧ input.getLast? ≠ some Path.separator ∧ output = Text.ofAscii "a.b/...json" ∧
      ({ encoding := .infer, output := some output } : Options).inferEncoding = .ok .json ∧
      Path.folder output = Text.ofAscii "a.b/" ∧
      defaultOutputPath output .csv = Text.ofAscii "a.b/...csv" := by
  have hinput : Text.ofAscii "a.b/.." ≠ [] := by decide
  have hend : (Text.ofAscii "a.b/..").getLast? ≠ some Path.separator := by decide
  obtain ⟨hinferred, hfolder, hagain⟩ :=
    inferEncoding_defaultOutputPath hinput hend (show Encoding.json ≠ .infer by decide) {} .csv
  exact ⟨hinput, hend, by decide, hinferred, hfolder.trans (by decide), hagain.trans (by decide)⟩

end Convert

end MarketWire
