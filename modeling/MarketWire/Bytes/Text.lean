/-!
# Byte strings and texts

Everything on the wire is a string of bytes, and every text the library reads or reports (symbols,
paths, messages) is a byte string too: no encoding is assumed of it, so bytes from 0x80 up pass
through unchanged.

## Main definitions

* `Bytes`, `Text` — byte strings, the second name for those meant to be read.
* `Text.ofAscii` — the bytes of a literal.
* `Text.decimal`, `Text.signedDecimal`, `Text.hexByte` — the digits that messages and rows use.
* `Text.joinWith` — texts in a row.
* `Text.upToNul` — the part of a padded field that counts.
* `Bytes.window` — a stretch of a byte string, read as zeros where the string has ended.
-/

namespace MarketWire

/-- A string of bytes. -/
abbrev Bytes := List UInt8

/-- A string of bytes that is meant to be read. -/
abbrev Text := List UInt8

namespace Text

/-- The bytes of an ASCII literal. -/
def ofAscii (s : String) : Text :=
  s.toList.map fun c => c.toNat.toUInt8

/-- The decimal digits of a natural number, without leading zeros. -/
def decimal (n : Nat) : Text :=
  (Nat.toDigits 10 n).map fun c => c.toNat.toUInt8

/-- The decimal digits of an integer behind a minus sign when it is negative. -/
def signedDecimal (z : Int) : Text :=
  if z < 0 then 0x2D :: decimal z.natAbs else decimal z.natAbs

/-- The decimal digits of `n`, filled up with zeros on the left to at least `width` of them. -/
def paddedDecimal (width n : Nat) : Text :=
  let digits := decimal n
  List.replicate (width - digits.length) 0x30 ++ digits

/-- The upper-case hexadecimal digit of a number below sixteen. -/
def hexDigit (n : Nat) : UInt8 :=
  if n < 10 then (0x30 + n).toUInt8 else (0x37 + n).toUInt8

/-- The two upper-case hexadecimal digits of a byte. -/
def hexByte (b : UInt8) : Text :=
  [hexDigit (b.toNat / 16), hexDigit (b.toNat % 16)]

/-- Texts in a row with a byte between each two of them. -/
def joinWith (separator : UInt8) : List Text → Text
  | [] => []
  | [text] => text
  | text :: texts => text ++ separator :: joinWith separator texts

/-- The bytes ahead of the first NUL, or all of them when there is none. -/
def upToNul (bs : Bytes) : Text :=
  bs.takeWhile (· != 0)

/-- What is kept of a field holds no NUL. -/
theorem zero_notMem_upToNul (bs : Bytes) : 0 ∉ upToNul bs := by
  intro h
  simpa using List.all_eq_true.mp (List.all_takeWhile (p := (· != 0))) 0 h

/-- A text is kept whole exactly when it holds no NUL. -/
theorem upToNul_eq_self_iff {text : Text} : upToNul text = text ↔ 0 ∉ text := by
  constructor
  · intro h
    rw [← h]
    exact zero_notMem_upToNul text
  · intro h
    have hkept : ∀ b ∈ text, (b != 0) = true := fun b hmem =>
      bne_iff_ne.mpr fun hb => h (hb ▸ hmem)
    rw [upToNul, ← List.append_nil text, List.takeWhile_append_of_pos hkept, List.takeWhile_nil]

/-- Padding with NULs does not count. -/
theorem upToNul_append_replicate (text : Text) (n : Nat) :
    upToNul (text ++ List.replicate n 0) = upToNul text := by
  induction text with
  | nil => cases n <;> simp [upToNul, List.replicate_succ]
  | cons b text ih =>
    simp only [upToNul, List.cons_append, List.takeWhile_cons] at ih ⊢
    rw [ih]

/-- Cutting at the first NUL never lengthens. -/
theorem length_upToNul_le (bs : Bytes) : (upToNul bs).length ≤ bs.length :=
  (List.takeWhile_sublist _).length_le

end Text

namespace Bytes

/-- The `width` bytes from `offset` on; past the end of `bs` they are zero. -/
def window (bs : Bytes) (offset width : Nat) : Bytes :=
  let kept := (bs.drop offset).take width
  kept ++ List.replicate (width - kept.length) 0

@[simp] theorem length_window (bs : Bytes) (offset width : Nat) :
    (bs.window offset width).length = width := by
  simp only [window, List.length_append, List.length_replicate, List.length_take, List.length_drop]
  omega

/-- Within the string a window is a plain slice. -/
theorem window_eq_take_drop {bs : Bytes} {offset width : Nat} (h : offset + width ≤ bs.length) :
    bs.window offset width = (bs.drop offset).take width := by
  have : width - ((bs.drop offset).take width).length = 0 := by
    rw [List.length_take, List.length_drop]
    omega
  rw [window, this]
  simp

/-- A window that lies within the string does not depend on what follows. -/
theorem window_append {bs : Bytes} {offset width : Nat} (h : offset + width ≤ bs.length)
    (more : Bytes) : Bytes.window (bs ++ more) offset width = bs.window offset width := by
  rw [window_eq_take_drop (by rw [List.length_append]; omega), window_eq_take_drop h,
    List.drop_append_of_le_length (by omega),
    List.take_append_of_le_length (by rw [List.length_drop]; omega)]

theorem getElem?_window {bs : Bytes} {offset width i : Nat} (h : i < width) :
    (Bytes.window bs offset width)[i]? = some (bs.getD (offset + i) 0) := by
  rw [window, List.getD_eq_getElem?_getD]
  by_cases hkept : offset + i < bs.length
  · have hlt : i < ((bs.drop offset).take width).length := by
      rw [List.length_take, List.length_drop]
      omega
    rw [List.getElem?_append_left hlt, List.getElem?_take_of_lt h, List.getElem?_drop,
      List.getElem?_eq_getElem hkept]
    rfl
  · have hge : ((bs.drop offset).take width).length ≤ i := by
      rw [List.length_take, List.length_drop]
      omega
    rw [List.getElem?_append_right hge, List.getElem?_eq_none (Nat.not_lt.mp hkept)]
    simp only [List.length_take, List.length_drop] at hge ⊢
    rw [List.getElem?_replicate, if_pos (by omega)]
    rfl

theorem getD_window {bs : Bytes} {size i : Nat} (h : i < size) :
    (Bytes.window bs 0 size).getD i 0 = bs.getD i 0 := by
  rw [List.getD_eq_getElem?_getD, getElem?_window h, Nat.zero_add, Option.getD_some]

/-- A window at the front may be looked at in place of the byte string. -/
theorem window_window {bs : Bytes} {offset width size : Nat} (h : offset + width ≤ size) :
    Bytes.window (Bytes.window bs 0 size) offset width = Bytes.window bs offset width := by
  refine List.ext_getElem? fun i => ?_
  by_cases hi : i < width
  · rw [getElem?_window hi, getElem?_window hi, getD_window (by omega)]
  · rw [List.getElem?_eq_none (by simpa using hi), List.getElem?_eq_none (by simpa using hi)]

end Bytes

end MarketWire
