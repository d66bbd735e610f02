import MarketWire.Bytes.Text

/-!
# Characters in byte strings

The first byte of a character tells which bytes may follow it, in order. A text field may hold
anything, though: a byte that begins no character is damage, and so is the longest stretch that
begins a character and breaks off. `repair` puts one replacement character in the place of each.

## Main definitions

* `Utf8.followers` — what may follow a first byte.
* `Utf8.repair` — a byte string with all damage replaced.
-/

namespace MarketWire

namespace Utf8

/-- The bytes of the replacement character. -/
def replacement : Bytes := [0xEF, 0xBF, 0xBD]

/-- The range of a byte within a character. -/
def tail : UInt8 × UInt8 := (0x80, 0xBF)

/-- The ranges of the bytes that follow a first byte, or nothing for a byte that begins no
character. The range next to some first bytes is narrower, so that every character has one form
only, is no half of a pair, and lies below the last one. -/
def followers (b : UInt8) : Option (List (UInt8 × UInt8)) :=
  if b < 0x80 then some []
  else if b < 0xC2 then none
  else if b < 0xE0 then some [tail]
  else if b = 0xE0 then some [(0xA0, 0xBF), tail]
  else if b = 0xED then some [(0x80, 0x9F), tail]
  else if b < 0xF0 then some [tail, tail]
  else if b = 0xF0 then some [(0x90, 0xBF), tail, tail]
  else if b < 0xF4 then some [tail, tail, tail]
  else if b = 0xF4 then some [(0x80, 0x8F), tail, tail]
  else none

/-- The number of bytes ahead that lie in the given ranges, one after another. -/
def matching : List (UInt8 × UInt8) → Bytes → Nat
  | (low, high) :: ranges, b :: bs => if low ≤ b ∧ b ≤ high then matching ranges bs + 1 else 0
  | _, _ => 0

/-- A byte string with all damage replaced. -/
def repair : Bytes → Text
  | [] => []
  | b :: bs =>
    match followers b with
    | none => replacement ++ repair bs
    | some ranges =>
      let count := matching ranges bs
      (if count = ranges.length then b :: bs.take count else replacement) ++ repair (bs.drop count)
termination_by bs => bs.length

end Utf8

end MarketWire
