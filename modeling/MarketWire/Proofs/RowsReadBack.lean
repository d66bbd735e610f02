import Mathlib.Tactic.IntervalCases
import MarketWire.Csv.Row
import MarketWire.Proofs.VisitedMembers

/-!
# Rows are read back

Rows of values that were quoted where necessary are told apart again, whatever bytes the values hold. A
reader that has come to the end of a written value, quoted or not, is ready for a comma or a line end,
and has the value as its field; so it does not matter what stands before or behind it.

Readers differ in what a field that is not quoted may hold besides plain bytes: some take a quote or a
carriage return there for itself, and some refuse the text. It makes no difference here, since no such
byte is written outside of quotes. So the reader below is one for each choice of bytes.

A row has to have a value, because a row of none would be written as one of an empty value is.

## Main definitions

* `Csv.Reader`, `Csv.readRows` — reading rows, byte by byte.
* `Csv.writeRows` — the rows of a table as they are written.
* `Csv.Reader.HasRead` — **the invariant**: a value was read, and what follows may end its field.

## Main results

* `Csv.Reader.hasRead_encodeValue` — a written value is read.
* `Csv.Reader.run_writeRow` — a written row is read.
* `Csv.readRows_writeRows` — rows are read back, and only values that need it are quoted.
* `Csv.readRows_recordRows` — so are the rows of records.
-/

namespace MarketWire

namespace Csv

/-! ### Reading -/

/-- Where in a field a reader stands. -/
inductive Place
  /-- Ahead of its first byte. -/
  | front
  /-- Within one that does not begin with a quote. -/
  | plain
  /-- Between the quotes of one that does. -/
  | quoted
  /-- Behind a quote within those, which may be the last one or the first of two. -/
  | closing
  deriving DecidableEq, Repr

/-- What a reader has read. -/
structure Reader where
  /-- The rows that have ended. -/
  rows : List (List Text) := []
  /-- The values of the row so far. -/
  row : List Text := []
  /-- The value of the field so far. -/
  field : Text := []
  /-- The place in the field. -/
  place : Place := .front
  deriving DecidableEq, Repr

namespace Reader

/-- Takes a byte into the field. -/
def take (r : Reader) (b : UInt8) (place : Place) : Reader :=
  { r with field := r.field ++ [b], place := place }

/-- Ends the field. -/
def endField (r : Reader) : Reader where
  rows := r.rows
  row := r.row ++ [r.field]

/-- Ends the field and the row. -/
def endRow (r : Reader) : Reader where
  rows := r.rows ++ [r.row ++ [r.field]]

/-- Reads what stands behind a field, and nothing else does. -/
def separate (r : Reader) (b : UInt8) : Option Reader :=
  if b = comma then some r.endField else if b = lineFeed then some r.endRow else none

/-- Reads a byte of a field that is not quoted, if it may hold it, or what stands behind the field. -/
def stepPlain (holds : UInt8 → Bool) (r : Reader) (b : UInt8) : Option Reader :=
  if b ≠ comma ∧ b ≠ lineFeed ∧ holds b then some (r.take b .plain) else r.separate b

/-- Reads a byte. A field is quoted if it begins with a quote; then a quote that is doubled stands for
one, and any other is the last byte of the field. -/
def step (holds : UInt8 → Bool) (r : Reader) (b : UInt8) : Option Reader :=
  match r.place with
  | .front => if b = quote then some { r with place := .quoted } else r.stepPlain holds b
  | .plain => r.stepPlain holds b
  | .quoted => if b = quote then some { r with place := .closing } else some (r.take b .quoted)
  | .closing => if b = quote then some (r.take b .quoted) else r.separate b

/-- Reads bytes. -/
def run (holds : UInt8 → Bool) (r : Reader) (text : Text) : Option Reader :=
  text.foldlM (step holds) r

end Reader

/-- The rows of a text, each of which has to end with a line end. -/
def readRows (holds : UInt8 → Bool) (text : Text) : Option (List (List Text)) :=
  match Reader.run holds {} text with
  | some ⟨rows, [], [], .front⟩ => some rows
  | _ => none

/-! ### Writing -/

/-- A row as it is written. -/
def writeRow (values : List Text) : Text :=
  joinRow (values.map encodeValue) ++ [lineFeed]

/-- Rows as they are written. -/
def writeRows (rows : List (List Text)) : Text :=
  rows.flatMap writeRow

/-- A value without special bytes is written as it is, and any other one between quotes. -/
theorem encodeValue_cases (value : Text) :
    (∀ b ∈ value, isSpecial b = false) ∧ encodeValue value = value ∨
      (∃ b ∈ value, isSpecial b = true) ∧
        encodeValue value = quote :: (doubleQuotes value ++ [quote]) := by
  cases hany : value.any isSpecial with
  | false =>
    refine .inl ⟨fun b hmem => ?_, by simp [encodeValue, hany]⟩
    exact Bool.eq_false_iff.mpr (List.any_eq_false.mp hany b hmem)
  | true => exact .inr ⟨List.any_eq_true.mp hany, by simp [encodeValue, hany]⟩

/-- **A value is quoted exactly if it needs to be.** -/
theorem head?_encodeValue_eq_quote_iff (value : Text) :
    (encodeValue value).head? = some quote ↔ ∃ b ∈ value, isSpecial b = true := by
  rcases encodeValue_cases value with ⟨hplain, hwritten⟩ | ⟨hspecial, hwritten⟩
  · rw [hwritten]
    constructor
    · intro hhead
      exact ⟨quote, List.mem_of_head? hhead, rfl⟩
    · rintro ⟨b, hmem, hb⟩
      rw [hplain b hmem] at hb
      cases hb
  · rw [hwritten]
    exact ⟨fun _ => hspecial, fun _ => rfl⟩

namespace Reader

variable {holds : UInt8 → Bool} {r : Reader}

/-! ### One value -/

theorem run_append (holds : UInt8 → Bool) (r : Reader) (text more : Text) :
    r.run holds (text ++ more) = (r.run holds text).bind fun last => last.run holds more :=
  List.foldlM_append

theorem run_cons (holds : UInt8 → Bool) (r : Reader) (b : UInt8) (text : Text) :
    r.run holds (b :: text) = (r.step holds b).bind fun next => next.run holds text :=
  List.foldlM_cons

theorem run_singleton (holds : UInt8 → Bool) (r : Reader) (b : UInt8) :
    r.run holds [b] = r.step holds b := by
  rw [run_cons]
  exact Option.bind_fun_some _

/-- A quote between quotes closes the field, for as long as no other one follows. -/
theorem step_quote_of_quoted (hplace : r.place = .quoted) :
    r.step holds quote = some { r with place := .closing } := by
  rw [step, hplace]
  exact if_pos rfl

/-- A second quote opens it again and is taken for itself. -/
theorem step_quote_of_closing (hplace : r.place = .closing) :
    r.step holds quote = some (r.take quote .quoted) := by
  rw [step, hplace]
  exact if_pos rfl

/-- A reader that has read a value into its field, of which nothing is open. -/
structure HasRead (r last : Reader) (value : Text) : Prop where
  /-- The value is the field. -/
  field_eq : last.field = value
  /-- The field may end. -/
  place_ne : last.place ≠ .quoted
  /-- The values of the row are as they were. -/
  row_eq : last.row = r.row
  /-- So are the rows. -/
  rows_eq : last.rows = r.rows

/-- What stands behind a field ends it, unless there are quotes open. -/
theorem step_eq_separate (hplace : r.place ≠ .quoted) {b : UInt8} (hb : b = comma ∨ b = lineFeed) :
    r.step holds b = r.separate b := by
  have hquote : b ≠ quote := by
    rcases hb with rfl | rfl <;> decide
  have hplain : r.stepPlain holds b = r.separate b := by
    refine if_neg ?_
    rintro ⟨hcomma, hline, -⟩
    exact hb.elim hcomma hline
  rw [step]
  cases hat : r.place with
  | front => exact (if_neg hquote).trans hplain
  | plain => exact hplain
  | quoted => exact absurd hat hplace
  | closing => exact if_neg hquote

/-- A value without special bytes is read as it stands. -/
theorem run_of_plain (hholds : ∀ b, isSpecial b = false → holds b = true) {value : Text}
    (h : ∀ b ∈ value, isSpecial b = false) (hplace : r.place = .front ∨ r.place = .plain) :
    ∃ last, r.run holds value = some last ∧ last.field = r.field ++ value ∧
      last.place ≠ .quoted ∧ last.row = r.row ∧ last.rows = r.rows := by
  induction value generalizing r with
  | nil => exact ⟨r, rfl, (List.append_nil _).symm, by rcases hplace with h | h <;> simp [h], rfl, rfl⟩
  | cons b value ih =>
    have hb := h b List.mem_cons_self
    have hsteps : b ≠ comma ∧ b ≠ lineFeed ∧ b ≠ quote := by
      refine ⟨?_, ?_, ?_⟩ <;> rintro rfl <;> exact absurd hb (by decide)
    obtain ⟨hcomma, hline, hquote⟩ := hsteps
    have hstep : r.step holds b = some (r.take b .plain) := by
      have hplain : r.stepPlain holds b = some (r.take b .plain) :=
        if_pos ⟨hcomma, hline, hholds b hb⟩
      rw [step]
      rcases hplace with hat | hat
      · rw [hat]
        exact (if_neg hquote).trans hplain
      · rw [hat]
        exact hplain
    obtain ⟨last, hrun, hfield, hlast⟩ :=
      ih (r := r.take b .plain) (fun b hmem => h b (List.mem_cons_of_mem _ hmem)) (.inr rfl)
    refine ⟨last, ?_, ?_, hlast⟩
    · rw [run_cons, hstep]
      exact hrun
    · rw [hfield]
      exact List.append_assoc _ _ _

/-- Between quotes everything is read for itself but doubled quotes, which are read as one. -/
theorem run_doubleQuotes (hplace : r.place = .quoted) (value : Text) :
    r.run holds (doubleQuotes value) = some { r with field := r.field ++ value } := by
  induction value generalizing r with
  | nil => rw [List.append_nil]; rfl
  | cons b value ih =>
    have htake : (r.take b .quoted).run holds (doubleQuotes value) =
        some { r with field := r.field ++ b :: value } := by
      rw [ih rfl, take, hplace]
      simp
    rw [doubleQuotes]
    split
    · rename_i hquote
      -- Of the two quotes the first one closes the field, and the second one takes that back.
      rw [run_cons, step_quote_of_quoted hplace, Option.bind_some, run_cons,
        step_quote_of_closing rfl, Option.bind_some]
      rw [hquote] at htake ⊢
      exact htake
    · rename_i hquote
      have hstep : r.step holds b = some (r.take b .quoted) := by
        rw [step, hplace]
        exact if_neg hquote
      rw [run_cons, hstep, Option.bind_some]
      exact htake

/-- **A written value is read**, whether it is quoted or not. -/
theorem hasRead_encodeValue (hholds : ∀ b, isSpecial b = false → holds b = true)
    (hfront : r.place = .front) (hempty : r.field = []) (value : Text) :
    ∃ last, r.run holds (encodeValue value) = some last ∧ HasRead r last value := by
  rcases encodeValue_cases value with ⟨hplain, hwritten⟩ | ⟨-, hwritten⟩
  · obtain ⟨last, hrun, hfield, hplace, hrow, hrows⟩ := run_of_plain hholds hplain (.inl hfront)
    rw [hempty] at hfield
    rw [hwritten]
    exact ⟨last, hrun, hfield, hplace, hrow, hrows⟩
  · refine ⟨{ r with field := value, place := .closing }, ?_, rfl, by simp, rfl, rfl⟩
    have hopen : r.step holds quote = some { r with place := .quoted } := by
      rw [step, hfront]
      exact if_pos rfl
    rw [hwritten, run_cons, hopen, Option.bind_some, run_append, run_doubleQuotes rfl, hempty,
      Option.bind_some, run_singleton]
    exact step_quote_of_quoted rfl

/-! ### Rows -/

/-- What stands behind a value that was read ends its field. -/
theorem HasRead.step {last : Reader} {value : Text} (h : HasRead r last value) {b : UInt8}
    (hb : b = comma ∨ b = lineFeed) :
    last.step holds b = Reader.separate { r with field := value } b := by
  obtain ⟨rfl, hplace, hrow, hrows⟩ := h
  rw [step_eq_separate hplace hb, separate, separate, endField, endField, endRow, endRow, hrow, hrows]

/-- **A written row is read** behind the values of the row so far. -/
theorem run_writeRow (hholds : ∀ b, isSpecial b = false → holds b = true) {values : List Text}
    (hvalues : values ≠ []) (rows : List (List Text)) (row : List Text) :
    Reader.run holds { rows := rows, row := row } (writeRow values) =
      some { rows := rows ++ [row ++ values] } := by
  induction values generalizing row with
  | nil => exact absurd rfl hvalues
  | cons value values ih =>
    obtain ⟨last, hrun, hread⟩ :=
      hasRead_encodeValue (r := { rows := rows, row := row }) hholds rfl rfl value
    -- The last value has a line end behind it, and any other one a comma.
    cases values with
    | nil =>
      rw [show writeRow [value] = encodeValue value ++ [lineFeed] from rfl, run_append, hrun]
      exact (run_singleton _ _ _).trans (hread.step (.inr rfl))
    | cons next values =>
      have hrest := ih (List.cons_ne_nil next values) (row ++ [value])
      rw [show writeRow (value :: next :: values) =
          encodeValue value ++ ([comma] ++ writeRow (next :: values)) from
        List.append_assoc _ (comma :: _) _, run_append, hrun]
      show last.run holds _ = _
      rw [run_append, run_singleton, hread.step (.inl rfl)]
      exact hrest.trans (by rw [List.append_assoc]; rfl)

/-- Written rows are read behind those before. -/
theorem run_writeRows (hholds : ∀ b, isSpecial b = false → holds b = true)
    {rows : List (List Text)} (hrows : ∀ row ∈ rows, row ≠ []) (before : List (List Text)) :
    Reader.run holds { rows := before } (writeRows rows) = some { rows := before ++ rows } := by
  induction rows generalizing before with
  | nil => rw [List.append_nil]; rfl
  | cons row rows ih =>
    rw [writeRows, List.flatMap_cons, run_append,
      run_writeRow hholds (hrows row List.mem_cons_self)]
    show Reader.run holds { rows := before ++ [row] } (writeRows rows) = _
    rw [ih fun row hmem => hrows row (List.mem_cons_of_mem _ hmem), List.append_assoc]
    rfl

end Reader

/-- **Rows are read back.** A reader, whatever else it takes for a byte of a field that is not quoted,
gives the rows that were written, value by value. A value is quoted only if it holds a comma, a quote,
or one of the bytes of a line end, and otherwise written as it is. -/
theorem readRows_writeRows {holds : UInt8 → Bool} (hholds : ∀ b, isSpecial b = false → holds b = true)
    {rows : List (List Text)} (hrows : ∀ row ∈ rows, row ≠ []) :
    readRows holds (writeRows rows) = some rows ∧
      ∀ value : Text,
        ((encodeValue value).head? = some quote ↔
          ∃ b ∈ value, b = comma ∨ b = quote ∨ b = carriageReturn ∨ b = lineFeed) ∧
        ((encodeValue value).head? ≠ some quote → encodeValue value = value) := by
  refine ⟨?_, fun value => ?_⟩
  · rw [readRows, Reader.run_writeRows hholds hrows []]
    rfl
  · have hquoted := head?_encodeValue_eq_quote_iff value
    refine ⟨by simpa [isSpecial, or_assoc] using hquoted, fun hplain => ?_⟩
    rcases encodeValue_cases value with ⟨-, hwritten⟩ | ⟨hspecial, -⟩
    · exact hwritten
    · exact absurd (hquoted.mpr hspecial) hplain

/-- Rows with values that are empty, made of quotes only, begin or end with one, or hold commas and line
ends. -/
def exampleRows : List (List Text) :=
  [[[], [quote], []], [[quote, quote, 65], [65, quote]], [[comma], [carriageReturn, lineFeed], [66]],
    [[], []]]

theorem readRows_writeRows_exampleRows :
    (∀ row ∈ exampleRows, row ≠ []) ∧
      readRows (fun _ => true) (writeRows exampleRows) = some exampleRows := by
  have hrows : ∀ row ∈ exampleRows, row ≠ [] := by decide
  exact ⟨hrows, (readRows_writeRows (fun _ _ => rfl) hrows).1⟩

/-! ### Rows of records -/

/-- The text of a cell. -/
def cellValue : Cell → Text
  | .number value => Text.signedDecimal value
  | .text value => value
  | .absent => []

/-- The texts of the cells of a record, with a send timestamp if there is one. -/
def recordValues (style : TextStyle) (r : OwnedRecord) (tsOut : Option UInt64) : List Text :=
  (r.fields.map Field.value ++ tsOut.toList.map fun ts => FieldValue.timestamp ts.toNat).map fun value =>
    cellValue (style.cell value)

/-- The digits of a number are not special. -/
theorem isSpecial_of_mem_decimal {n : Nat} {b : UInt8} (h : b ∈ Text.decimal n) :
    isSpecial b = false := by
  obtain ⟨c, hmem, rfl⟩ := List.mem_map.mp h
  have hdigit := Nat.isDigit_of_mem_toDigits (by decide) (by decide) hmem
  have hrange : 48 ≤ c.toNat ∧ c.toNat ≤ 57 := by
    simpa [Char.isDigit, UInt32.le_iff_toNat_le] using hdigit
  have hall : ∀ n, 48 ≤ n → n ≤ 57 → isSpecial n.toUInt8 = false := by
    intro n hlow hhigh
    interval_cases n <;> rfl
  exact hall c.toNat hrange.1 hrange.2

/-- Nor is the minus sign ahead of them. -/
theorem isSpecial_of_mem_signedDecimal {z : Int} {b : UInt8} (h : b ∈ Text.signedDecimal z) :
    isSpecial b = false := by
  rw [Text.signedDecimal] at h
  split at h
  · rcases List.mem_cons.mp h with rfl | hdigit
    · rfl
    · exact isSpecial_of_mem_decimal hdigit
  · exact isSpecial_of_mem_decimal h

/-- So a cell is written as its text is. -/
theorem cellText_eq (cell : Cell) : cellText cell = encodeValue (cellValue cell) := by
  cases cell with
  | number value =>
    rcases encodeValue_cases (Text.signedDecimal value) with ⟨-, hwritten⟩ | ⟨⟨b, hmem, hb⟩, -⟩
    · exact hwritten.symm
    · rw [isSpecial_of_mem_signedDecimal hmem] at hb
      cases hb
  | text value => rfl
  | absent => rfl

theorem recordRow_eq (style : TextStyle) (r : OwnedRecord) (tsOut : Option UInt64) :
    recordRow style r tsOut = writeRow (recordValues style r tsOut) := by
  simp only [recordRow, row, writeRow, recordValues, List.map_map, Function.comp_def, cellText_eq]

theorem recordValues_ne_nil (style : TextStyle) (r : OwnedRecord) (tsOut : Option UInt64) :
    recordValues style r tsOut ≠ [] := by
  have hfields : r.fields.length = r.type.fieldNames.length := by
    rw [← r.map_name_fields, List.length_map]
  have hnames : r.type.fieldNames ≠ [] := List.cons_ne_nil _ _
  rw [← List.length_pos_iff] at hnames ⊢
  simp only [recordValues, List.length_map, List.length_append]
  omega

/-- **The rows of records are read back** as the texts of their cells, record by record. -/
theorem readRows_recordRows {holds : UInt8 → Bool}
    (hholds : ∀ b, isSpecial b = false → holds b = true) (style : TextStyle)
    (records : List (OwnedRecord × Option UInt64)) :
    readRows holds (records.flatMap fun (r, tsOut) => recordRow style r tsOut) =
      some (records.map fun (r, tsOut) => recordValues style r tsOut) := by
  have hwritten : (records.flatMap fun (r, tsOut) => recordRow style r tsOut) =
      writeRows (records.map fun (r, tsOut) => recordValues style r tsOut) := by
    simp only [recordRow_eq, writeRows, List.flatMap_map]
  have hrows : ∀ row ∈ records.map fun (r, tsOut) => recordValues style r tsOut, row ≠ [] := by
    rintro row hmem
    obtain ⟨⟨r, tsOut⟩, -, rfl⟩ := List.mem_map.mp hmem
    exact recordValues_ne_nil style r tsOut
  rw [hwritten, readRows, Reader.run_writeRows hholds hrows []]
  rfl

end Csv

end MarketWire
