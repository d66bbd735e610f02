import Mathlib.Data.List.Induction
import MarketWire.Convert.Options

/-!
# Command lines

A command line is a row of groups: an option with a value behind it, a flag, or a text by itself. What
a group is can be told from its first argument, and a row of arguments is cut into groups from left
to right, so a value may look like an option. Exactly one of the texts names the input file. Empty
texts say nothing, but only ahead of that one: once there is an input file, an empty text is taken for
a second one.

What is asked for depends little on the order. Flags and the input file may stand anywhere, and of the
values of one option the last one counts.

## Main definitions

* `ArgumentGroup`, `ArgumentGroup.Spelled` — groups and the arguments that they may consist of.
* `Spells` — groups in a row and their arguments.
* `IsCommand` — which rows of groups make up a command line.
* `Options.ofGroups` — what they ask for.
* `Reorders` — the same groups in another order that makes no difference.

## Main results

* `Options.read_append_of_spelled`, `Options.read_cases` — what is done in one step.
* `Options.read_eq_ok_iff` — arguments are read as a row of groups.
* `Options.parse_eq_ok_iff` — **command lines are accepted, and nothing else**, in any order.
-/

namespace MarketWire

namespace Convert

/-! ### Groups -/

/-- An option without a value. -/
inductive Flag
  | toStdout
  | force
  | prettyPrices
  | prettyTimestamps
  | metadata
  deriving DecidableEq, Repr

/-- What an argument means that gives a flag. -/
def Flag.argument : Flag → Argument
  | .toStdout => .toStdout
  | .force => .force
  | .prettyPrices => .prettyPrices
  | .prettyTimestamps => .prettyTimestamps
  | .metadata => .metadata

/-- The words for an option. -/
def Argument.words : Argument → List Text
  | .output => [Text.ofAscii "-o", Text.ofAscii "--output"]
  | .encoding => [Text.ofAscii "-e", Text.ofAscii "--encoding"]
  | .toStdout => [Text.ofAscii "-c", Text.ofAscii "--stdout"]
  | .force => [Text.ofAscii "-f", Text.ofAscii "--force"]
  | .prettyPrices => [Text.ofAscii "--pretty-px"]
  | .prettyTimestamps => [Text.ofAscii "--pretty-ts"]
  | .metadata => [Text.ofAscii "--metadata"]
  | .unknown => []
  | .positional => []

/-- The names of the encodings. -/
def Encoding.word : Encoding → Text
  | .infer => Text.ofAscii "infer"
  | .csv => Text.ofAscii "csv"
  | .json => Text.ofAscii "json"

/-- The byte that options begin with. -/
def hyphen : UInt8 := 0x2D

/-- Arguments that belong together. -/
inductive ArgumentGroup
  /-- An output file. -/
  | output (path : Text)
  /-- An encoding. -/
  | encoding (encoding : Encoding)
  /-- A flag. -/
  | flag (flag : Flag)
  /-- A text by itself: the input file, unless it is empty. -/
  | positional (text : Text)
  deriving DecidableEq, Repr

namespace ArgumentGroup

/-- The arguments that a group may consist of. -/
inductive Spelled : ArgumentGroup → List Text → Prop
  /-- Any argument may be an output file. -/
  | output {option : Text} (h : option ∈ Argument.output.words) (path : Text) :
    Spelled (.output path) [option, path]
  | encoding {option : Text} (h : option ∈ Argument.encoding.words) (encoding : Encoding) :
    Spelled (.encoding encoding) [option, encoding.word]
  | flag {option : Text} {flag : Flag} (h : option ∈ flag.argument.words) :
    Spelled (.flag flag) [option]
  | positional {text : Text} (h : text.head? ≠ some hyphen) : Spelled (.positional text) [text]

/-- The output file that a group names. -/
def output? : ArgumentGroup → Option Text
  | .output path => some path
  | _ => none

/-- The encoding that a group names. -/
def encoding? : ArgumentGroup → Option Encoding
  | .encoding name => some name
  | _ => none

/-- The text by itself that a group is. -/
def text? : ArgumentGroup → Option Text
  | .positional text => some text
  | _ => none

end ArgumentGroup

/-- Groups in a row, and their arguments. -/
inductive Spells : List ArgumentGroup → List Text → Prop
  | nil : Spells [] []
  | cons {group : ArgumentGroup} {words : List Text} {groups : List ArgumentGroup}
    {rest : List Text} (h : group.Spelled words) (hrest : Spells groups rest) :
    Spells (group :: groups) (words ++ rest)

/-- The texts by themselves. -/
def texts (groups : List ArgumentGroup) : List Text :=
  groups.filterMap ArgumentGroup.text?

/-- The input files: the texts by themselves that are not empty. -/
def inputs (groups : List ArgumentGroup) : List Text :=
  (texts groups).filter (· ≠ [])

/-- No empty text stands behind one that is not empty. -/
def BlanksLead (groups : List ArgumentGroup) : Prop :=
  (texts groups).Pairwise fun earlier later => earlier ≠ [] → later ≠ []

instance (groups : List ArgumentGroup) : Decidable (BlanksLead groups) :=
  inferInstanceAs (Decidable (List.Pairwise _ _))

/-- Groups that make up a command line. -/
structure IsCommand (groups : List ArgumentGroup) : Prop where
  /-- There is exactly one input file. -/
  input : ∃ file, inputs groups = [file]
  /-- Empty texts stand ahead of it. -/
  blanksLead : BlanksLead groups
  /-- The output does not go to a file and to the standard output. -/
  exclusive : ¬(.flag .toStdout ∈ groups ∧ ∃ path, .output path ∈ groups)

/-- What groups ask for: the input file that they name, the last output file, the last encoding, and
the flags among them. -/
def Options.ofGroups (groups : List ArgumentGroup) : Options where
  input := (inputs groups).getLast?.getD []
  output := (groups.filterMap ArgumentGroup.output?).getLast?
  toStdout := .flag .toStdout ∈ groups
  encoding := (groups.filterMap ArgumentGroup.encoding?).getLast?.getD .infer
  force := .flag .force ∈ groups
  prettyPrices := .flag .prettyPrices ∈ groups
  prettyTimestamps := .flag .prettyTimestamps ∈ groups
  metadata := .flag .metadata ∈ groups

/-- The same groups in another order, in which output files and encodings follow each other as before
and no empty text has come to stand behind the input file. -/
structure Reorders (groups reordered : List ArgumentGroup) : Prop where
  perm : groups.Perm reordered
  outputs : reordered.filterMap ArgumentGroup.output? = groups.filterMap ArgumentGroup.output?
  encodings :
    reordered.filterMap ArgumentGroup.encoding? = groups.filterMap ArgumentGroup.encoding?
  blanksLead : BlanksLead reordered

/-! ### What an argument means -/

namespace Argument

theorem ofText_of_mem_words {argument : Argument} {text : Text} (h : text ∈ argument.words) :
    ofText text = argument := by
  have hall : ∀ text ∈ argument.words, ofText text = argument := by
    cases argument <;> decide
  exact hall text h

theorem ofText_of_head? {text : Text} (h : text.head? ≠ some hyphen) :
    ofText text = .positional := by
  have hlisted : ∀ entry ∈ spellings, entry.1.head? = some hyphen := by decide
  have hlookup : spellings.lookup text = none := by
    rw [List.lookup_eq_none_iff]
    intro entry hentry
    rw [bne_iff_ne]
    rintro rfl
    exact h (hlisted entry hentry)
  rw [ofText, hlookup]
  exact if_neg h

/-- What a text may be at the front of a row of arguments. -/
inductive Kind (text : Text) : Prop
  | output (h : text ∈ Argument.output.words)
  | encoding (h : text ∈ Argument.encoding.words)
  | flag (f : Flag) (h : text ∈ f.argument.words)
  | unknown (h : ofText text = .unknown)
  | positional (h : text.head? ≠ some hyphen)

theorem kind_of_mem_words {argument : Argument} {text : Text} (h : text ∈ argument.words) :
    Kind text := by
  cases argument with
  | output => exact .output h
  | encoding => exact .encoding h
  | toStdout => exact .flag .toStdout h
  | force => exact .flag .force h
  | prettyPrices => exact .flag .prettyPrices h
  | prettyTimestamps => exact .flag .prettyTimestamps h
  | metadata => exact .flag .metadata h
  | unknown => cases h
  | positional => cases h

theorem kind (text : Text) : Kind text := by
  have hlisted : ∀ entry ∈ spellings, entry.1 ∈ entry.2.words := by decide
  cases hlookup : spellings.lookup text with
  | some argument =>
    obtain ⟨before, behind, hsplit, -⟩ := List.lookup_eq_some_iff.mp hlookup
    exact kind_of_mem_words
      (hlisted (text, argument) (hsplit ▸ List.mem_append_right _ List.mem_cons_self))
  | none =>
    by_cases hhead : text.head? = some hyphen
    · refine .unknown ?_
      rw [ofText, hlookup]
      exact if_pos hhead
    · exact .positional hhead

end Argument

/-- Each encoding has its name, and no other text is one. -/
theorem Encoding.ofText?_eq_some_iff {text : Text} {encoding : Encoding} :
    Encoding.ofText? text = some encoding ↔ text = encoding.word := by
  constructor
  · intro h
    obtain ⟨before, behind, hsplit, -⟩ := List.lookup_eq_some_iff.mp h
    have hlisted : ∀ entry ∈ [(Text.ofAscii "infer", Encoding.infer), (Text.ofAscii "csv", .csv),
        (Text.ofAscii "json", .json)], entry.1 = entry.2.word := by decide
    exact hlisted (text, encoding) (hsplit ▸ List.mem_append_right _ List.mem_cons_self)
  · rintro rfl
    cases encoding <;> decide

/-! ### What groups ask for -/

namespace Options

/-- The options with a flag set. -/
def raise (o : Options) : Flag → Options
  | .toStdout => { o with toStdout := true }
  | .force => { o with force := true }
  | .prettyPrices => { o with prettyPrices := true }
  | .prettyTimestamps => { o with prettyTimestamps := true }
  | .metadata => { o with metadata := true }

/-- The options after one more group. -/
def apply (o : Options) : ArgumentGroup → Options
  | .output path => { o with output := some path }
  | .encoding encoding => { o with encoding := encoding }
  | .flag f => o.raise f
  | .positional text => if text = [] then o else { o with input := text }

/-- What one more group asks for is added. -/
theorem ofGroups_concat (groups : List ArgumentGroup) (group : ArgumentGroup) :
    ofGroups (groups ++ [group]) = (ofGroups groups).apply group := by
  simp only [ofGroups, inputs, texts, List.filterMap_append, List.filter_append,
    List.filterMap_cons, List.filterMap_nil, List.mem_append, List.mem_singleton]
  cases group with
  | output path => simp [apply, ArgumentGroup.text?, ArgumentGroup.output?, ArgumentGroup.encoding?]
  | encoding encoding =>
    simp [apply, ArgumentGroup.text?, ArgumentGroup.output?, ArgumentGroup.encoding?]
  | flag f =>
    cases f <;>
      simp [apply, raise, ArgumentGroup.text?, ArgumentGroup.output?, ArgumentGroup.encoding?]
  | positional text =>
    by_cases htext : text = [] <;>
      simp [apply, ArgumentGroup.text?, ArgumentGroup.output?, ArgumentGroup.encoding?, htext]

theorem foldl_apply (groups : List ArgumentGroup) : groups.foldl apply {} = ofGroups groups := by
  induction groups using List.reverseRecOn with
  | nil => rfl
  | append_singleton groups group ih =>
    rw [List.foldl_append, ih, ofGroups_concat]
    rfl

/-! ### One step -/

/-- A group may come next: a text by itself must not meet an input file. -/
def Admits (o : Options) (group : ArgumentGroup) : Prop :=
  group.text?.isSome → o.input = []

variable {o last : Options} {group : ArgumentGroup} {text : Text} {words rest : List Text}

theorem read_flag {f : Flag} (h : Argument.ofText text = f.argument) (o : Options)
    (rest : List Text) : read o (text :: rest) = read (o.raise f) rest := by
  cases f <;> simp only [Flag.argument] at h <;> simp only [read, h, raise]

/-- A text by itself names the input file unless there is one. -/
theorem read_positional (h : text.head? ≠ some hyphen) (o : Options) (rest : List Text) :
    read o (text :: rest) =
      if o.input = [] then read { o with input := text } rest
      else (.error (.unexpectedArgument text), o) := by
  simp only [read, Argument.ofText_of_head? h, List.isEmpty_iff]

/-- A group that may come next is read, and what it asks for is added. -/
theorem read_append_of_spelled (h : group.Spelled words) (hadmits : o.Admits group)
    (rest : List Text) : read o (words ++ rest) = read (o.apply group) rest := by
  cases h with
  | output hoption path =>
    simp only [List.cons_append, List.nil_append, read, Argument.ofText_of_mem_words hoption, apply]
  | encoding hoption encoding =>
    have hname : Encoding.ofText? encoding.word = some encoding :=
      Encoding.ofText?_eq_some_iff.mpr rfl
    simp only [List.cons_append, List.nil_append, read, Argument.ofText_of_mem_words hoption, hname,
      apply]
  | flag hoption => exact read_flag (Argument.ofText_of_mem_words hoption) o rest
  | @positional text htext =>
    have hinput : o.input = [] := hadmits rfl
    rw [List.cons_append, List.nil_append, read_positional htext, if_pos hinput, apply]
    -- An empty text takes the place of an input file that is not there.
    split
    · rename_i hempty
      rw [hempty, ← hinput]
    · rfl

/-- **One step.** Arguments begin with a group that may come next, or reading them fails. -/
theorem read_cases (o : Options) (text : Text) (rest : List Text) :
    (∃ group words behind, ArgumentGroup.Spelled group words ∧ o.Admits group ∧
        text :: rest = words ++ behind) ∨
      ∃ error, read o (text :: rest) = (.error error, o) := by
  cases Argument.kind text with
  | output hword =>
    have hmeans := Argument.ofText_of_mem_words hword
    cases rest with
    | nil => exact .inr ⟨.missingValue "--output", by simp only [read, hmeans]⟩
    | cons path behind => exact .inl ⟨_, _, behind, .output hword path, nofun, rfl⟩
  | encoding hword =>
    have hmeans := Argument.ofText_of_mem_words hword
    cases rest with
    | nil => exact .inr ⟨.missingValue "--encoding", by simp only [read, hmeans]⟩
    | cons name behind =>
      cases hname : Encoding.ofText? name with
      | none => exact .inr ⟨.unknownEncoding name, by simp only [read, hmeans, hname]⟩
      | some encoding =>
        obtain rfl := Encoding.ofText?_eq_some_iff.mp hname
        exact .inl ⟨_, _, behind, .encoding hword encoding, nofun, rfl⟩
  | flag f hword => exact .inl ⟨_, _, rest, .flag hword, nofun, rfl⟩
  | unknown hunknown => exact .inr ⟨.unknownOption text, by simp only [read, hunknown]⟩
  | positional hhead =>
    by_cases hinput : o.input = []
    · exact .inl ⟨_, _, rest, .positional hhead, fun _ => hinput, rfl⟩
    · refine .inr ⟨.unexpectedArgument text, ?_⟩
      rw [read_positional hhead, if_neg hinput]

/-! ### All steps -/

/-- The groups may come one after another: a text by itself follows empty ones only, and an input file
that is there counts as one more ahead of them. -/
def AdmitsAll (o : Options) (groups : List ArgumentGroup) : Prop :=
  (o.input :: texts groups).Pairwise fun earlier _ => earlier = []

instance (o : Options) (groups : List ArgumentGroup) : Decidable (o.AdmitsAll groups) :=
  inferInstanceAs (Decidable (List.Pairwise _ _))

theorem admitsAll_nil (o : Options) : o.AdmitsAll [] :=
  List.pairwise_singleton _ _

theorem texts_cons (group : ArgumentGroup) (groups : List ArgumentGroup) :
    texts (group :: groups) = group.text?.toList ++ texts groups := by
  cases group <;> rfl

theorem input_apply (o : Options) (group : ArgumentGroup) :
    (o.apply group).input = match group.text? with
      | none => o.input
      | some text => if text = [] then o.input else text := by
  cases group with
  | flag f => cases f <;> rfl
  | positional text => exact apply_ite Options.input _ _ _
  | output | encoding => rfl

theorem admitsAll_cons {groups : List ArgumentGroup} :
    o.AdmitsAll (group :: groups) ↔ o.Admits group ∧ (o.apply group).AdmitsAll groups := by
  rw [AdmitsAll, AdmitsAll, Admits, texts_cons, input_apply]
  cases group.text? with
  | none => simp
  | some text =>
    have hsame : o.input = [] → (if text = [] then o.input else text) = text := by
      intro hinput
      by_cases htext : text = [] <;> simp [htext, hinput]
    dsimp only
    constructor
    · intro hall
      obtain ⟨hinput, hall⟩ := List.pairwise_cons.mp hall
      have hempty : o.input = [] := hinput text List.mem_cons_self
      exact ⟨fun _ => hempty, by rwa [hsame hempty]⟩
    · rintro ⟨hadmits, hall⟩
      have hempty : o.input = [] := hadmits rfl
      rw [hsame hempty] at hall
      exact List.pairwise_cons.mpr ⟨fun _ _ => hempty, hall⟩

theorem length_lt_of_spelled (h : group.Spelled words) (rest : List Text) :
    rest.length < (words ++ rest).length := by
  cases h <;> simp only [List.length_append, List.length_cons] <;> omega

/-- **Arguments are read as a row of groups** that may come one after another, and what these ask for
is added to the options. -/
theorem read_eq_ok_iff {arguments : List Text} :
    read o arguments = (.ok (), last) ↔
      ∃ groups, Spells groups arguments ∧ o.AdmitsAll groups ∧ groups.foldl apply o = last := by
  constructor
  · intro h
    -- A group takes away at least one argument.
    induction hlength : arguments.length using Nat.strongRecOn generalizing o arguments with
    | ind length ih =>
      cases arguments with
      | nil => exact ⟨[], .nil, o.admitsAll_nil, congrArg Prod.snd h⟩
      | cons text rest =>
        rcases o.read_cases text rest with
          ⟨group, words, behind, hspelled, hadmits, hsplit⟩ | ⟨error, herror⟩
        · rw [hsplit, read_append_of_spelled hspelled hadmits] at h
          have hshorter := length_lt_of_spelled hspelled behind
          rw [← hsplit, hlength] at hshorter
          obtain ⟨groups, hspells, hall, hlast⟩ := ih behind.length hshorter h rfl
          exact ⟨group :: groups, hsplit ▸ .cons hspelled hspells,
            admitsAll_cons.mpr ⟨hadmits, hall⟩, hlast⟩
        · rw [herror] at h
          cases h
  · rintro ⟨groups, hspells, hall, rfl⟩
    induction hspells generalizing o with
    | nil => rfl
    | cons hspelled _ ih =>
      obtain ⟨hadmits, hall⟩ := admitsAll_cons.mp hall
      rw [read_append_of_spelled hspelled hadmits]
      exact ih hall

/-! ### Command lines -/

/-- There is one input file and no empty text behind it exactly if only empty texts are followed by
another one and not all of them are empty. -/
theorem exists_inputs_eq_iff {groups : List ArgumentGroup} :
    ((∃ file, inputs groups = [file]) ∧ BlanksLead groups) ↔
      (texts groups).Pairwise (fun earlier _ => earlier = []) ∧ inputs groups ≠ [] := by
  rw [BlanksLead, inputs]
  generalize texts groups = row
  induction row with
  | nil => simp
  | cons text row ih =>
    by_cases htext : text = []
    · simpa [htext] using ih
    · -- Either way nothing follows this one.
      constructor
      · rintro ⟨⟨file, hfile⟩, hlead⟩
        have hlater := (List.pairwise_cons.mp hlead).1
        cases row with
        | nil => simp [htext]
        | cons next row =>
          have hnext : next ≠ [] := hlater next List.mem_cons_self htext
          simp [htext, hnext] at hfile
      · rintro ⟨hall, -⟩
        have hempty := (List.pairwise_cons.mp hall).1
        cases row with
        | nil => simp [htext]
        | cons next row => exact absurd (hempty next List.mem_cons_self) htext

theorem check_eq_ok_iff : o.check = .ok () ↔ o.input ≠ [] ∧ ¬(o.output.isSome ∧ o.toStdout) := by
  rw [check]
  cases o.input <;> cases o.output <;> cases o.toStdout <;> simp

theorem input_ofGroups_ne_nil_iff {groups : List ArgumentGroup} :
    (ofGroups groups).input ≠ [] ↔ inputs groups ≠ [] := by
  rw [ofGroups]
  cases hlast : (inputs groups).getLast? with
  | none => simp [List.getLast?_eq_none_iff.mp hlast]
  | some file =>
    have hmem : file ∈ inputs groups := List.mem_of_getLast? hlast
    have hfile : file ≠ [] := by simpa using (List.mem_filter.mp hmem).2
    exact iff_of_true hfile (List.ne_nil_of_mem hmem)

theorem isSome_output_ofGroups_iff {groups : List ArgumentGroup} :
    (ofGroups groups).output.isSome ↔ ∃ path, .output path ∈ groups := by
  have hnames : ∀ (group : ArgumentGroup) (path : Text),
      group.output? = some path ↔ group = .output path := by
    intro group path
    cases group <;> simp [ArgumentGroup.output?]
  rw [ofGroups, List.getLast?_isSome, ne_eq, List.eq_nil_iff_forall_not_mem]
  simp [hnames]

/-- Groups make up a command line exactly if they may come one after another and what they ask for can
be had together. -/
theorem isCommand_iff {groups : List ArgumentGroup} :
    IsCommand groups ↔ ({} : Options).AdmitsAll groups ∧ (ofGroups groups).check = .ok () := by
  have hfront : ({} : Options).AdmitsAll groups ↔
      (texts groups).Pairwise fun earlier _ => earlier = [] :=
    List.pairwise_cons.trans (and_iff_right fun _ _ => rfl)
  have hstdout : (ofGroups groups).toStdout = true ↔ .flag .toStdout ∈ groups :=
    decide_eq_true_iff
  rw [hfront, check_eq_ok_iff, input_ofGroups_ne_nil_iff, isSome_output_ofGroups_iff, hstdout,
    ← and_assoc, ← exists_inputs_eq_iff, and_comm (a := ∃ path, .output path ∈ groups)]
  exact ⟨fun h => ⟨⟨h.input, h.blanksLead⟩, h.exclusive⟩, fun h => ⟨h.1.1, h.1.2, h.2⟩⟩

instance (groups : List ArgumentGroup) : Decidable (IsCommand groups) :=
  decidable_of_iff _ isCommand_iff.symm

theorem parse_eq_ok_iff_read {arguments : List Text} :
    parse arguments = (.ok (), o) ↔ read {} arguments = (.ok (), o) ∧ o.check = .ok () := by
  rw [parse]
  rcases read {} arguments with ⟨_ | ⟨⟩, last⟩
  · simp
  · simp only [Prod.mk.injEq, true_and]
    constructor
    · rintro ⟨hcheck, rfl⟩
      exact ⟨rfl, hcheck⟩
    · rintro ⟨rfl, hcheck⟩
      exact ⟨hcheck, rfl⟩

theorem parse_eq_ok_iff_isCommand {arguments : List Text} :
    parse arguments = (.ok (), o) ↔
      ∃ groups, Spells groups arguments ∧ IsCommand groups ∧ o = ofGroups groups := by
  rw [parse_eq_ok_iff_read, read_eq_ok_iff]
  simp only [foldl_apply, isCommand_iff]
  constructor
  · rintro ⟨⟨groups, hspells, hall, rfl⟩, hcheck⟩
    exact ⟨groups, hspells, ⟨hall, hcheck⟩, rfl⟩
  · rintro ⟨groups, hspells, ⟨hall, hcheck⟩, rfl⟩
    exact ⟨⟨groups, hspells, hall, rfl⟩, hcheck⟩

/-! ### Other orders -/

/-- Another order makes up a command line too, which asks for the same. -/
theorem isCommand_of_reorders {groups reordered : List ArgumentGroup} (h : Reorders groups reordered)
    (hcommand : IsCommand groups) :
    IsCommand reordered ∧ ofGroups reordered = ofGroups groups := by
  obtain ⟨file, hfile⟩ := hcommand.input
  have hinputs : inputs reordered = [file] := by
    have hperm : (inputs groups).Perm (inputs reordered) := (h.perm.filterMap _).filter _
    rw [hfile] at hperm
    exact (List.singleton_perm.mp hperm).symm
  refine ⟨⟨⟨file, hinputs⟩, h.blanksLead, ?_⟩, ?_⟩
  · simp only [← h.perm.mem_iff]
    exact hcommand.exclusive
  · rw [ofGroups, ofGroups, hinputs, hfile, h.outputs, h.encodings]
    simp only [h.perm.mem_iff]

/-- **Command lines are accepted, and nothing else.** Arguments are accepted exactly if they are a row
of groups that make up a command line, and what is read is what these ask for. The same groups in an
order that leaves output files and encodings in theirs, and puts no empty text behind the input file,
are read in the same way. -/
theorem parse_eq_ok_iff (arguments : List Text) :
    (∀ o, parse arguments = (.ok (), o) ↔
        ∃ groups, Spells groups arguments ∧ IsCommand groups ∧ o = ofGroups groups) ∧
      ∀ groups, Spells groups arguments → IsCommand groups →
        ∀ reordered others, Reorders groups reordered → Spells reordered others →
          parse others = parse arguments := by
  refine ⟨fun o => parse_eq_ok_iff_isCommand, ?_⟩
  intro groups hspells hcommand reordered others hreorders hothers
  obtain ⟨hcommand', hsame⟩ := isCommand_of_reorders hreorders hcommand
  rw [parse_eq_ok_iff_isCommand.mpr ⟨groups, hspells, hcommand, rfl⟩,
    parse_eq_ok_iff_isCommand.mpr ⟨reordered, hothers, hcommand', rfl⟩, hsame]

/-- An empty text, an output file that looks like an option, the input file, a flag, and two encodings
around another output file. -/
def exampleGroups : List ArgumentGroup :=
  [.positional [], .output (Text.ofAscii "-c"), .positional (Text.ofAscii "in.dbn"), .flag .force,
    .encoding .csv, .output (Text.ofAscii "out"), .encoding .json]

/-- The same with the input file at the end. -/
def exampleReordered : List ArgumentGroup :=
  [.output (Text.ofAscii "-c"), .encoding .csv, .flag .force, .encoding .json, .positional [],
    .output (Text.ofAscii "out"), .positional (Text.ofAscii "in.dbn")]

theorem parse_eq_ok_iff_exampleGroups :
    let arguments := ["", "-o", "-c", "in.dbn", "-f", "-e", "csv", "--output", "out", "-e", "json"]
    let others := ["--output", "-c", "-e", "csv", "--force", "--encoding", "json", "", "-o", "out",
      "in.dbn"]
    Spells exampleGroups (arguments.map Text.ofAscii) ∧ IsCommand exampleGroups ∧
      Reorders exampleGroups exampleReordered ∧
      Spells exampleReordered (others.map Text.ofAscii) ∧
      parse (arguments.map Text.ofAscii) = (.ok (), ofGroups exampleGroups) ∧
      parse (others.map Text.ofAscii) = parse (arguments.map Text.ofAscii) := by
  intro arguments others
  have hspells : Spells exampleGroups (arguments.map Text.ofAscii) :=
    .cons (.positional (by decide)) <| .cons (.output (by decide) _) <|
      .cons (.positional (by decide)) <| .cons (.flag (by decide)) <|
      .cons (.encoding (by decide) _) <| .cons (.output (by decide) _) <|
      .cons (.encoding (by decide) _) .nil
  have hothers : Spells exampleReordered (others.map Text.ofAscii) :=
    .cons (.output (by decide) _) <| .cons (.encoding (by decide) _) <|
      .cons (.flag (by decide)) <| .cons (.encoding (by decide) _) <|
      .cons (.positional (by decide)) <| .cons (.output (by decide) _) <|
      .cons (.positional (by decide)) .nil
  have hcommand : IsCommand exampleGroups := by decide
  have hreorders : Reorders exampleGroups exampleReordered :=
    ⟨by decide, by decide, by decide, by decide⟩
  obtain ⟨haccepted, hsame⟩ := parse_eq_ok_iff (arguments.map Text.ofAscii)
  exact ⟨hspells, hcommand, hreorders, hothers,
    (haccepted _).mpr ⟨_, hspells, hcommand, rfl⟩,
    hsame _ hspells hcommand _ _ hreorders hothers⟩

end Options

end Convert

end MarketWire
