import MarketWire.Bytes.LittleEndian
import MarketWire.Bytes.FixedText

/-!
# Scanning a block

A scanner walks over a block of bytes and keeps an account of what it touches: each stretch that it
reads, each distance to the end of the block that it takes, each product of a count with the size
of an element, and each reservation of memory. The account survives a failure, so bounds on what
was touched can be stated for every run and not only for successful ones.

Reading past the end of the bytes gives zeros, and a distance past the limit is zero: the scanner
is total, and staying in bounds is a fact about its accounts.

## Main definitions

* `Touch`, `Scanner`, `Scan` — entries of the account, the state of a walk, and walks.
* `Scan.number`, `Scan.text` — fields read without a check.
* `Scan.word`, `Scan.checkedText`, `Scan.ensure` — the checks against the limit.
* `Scan.repeated` — so many elements in a row.
-/

namespace MarketWire

/-- An entry in the account of a scanner. -/
inductive Touch
  /-- Bytes were read. -/
  | read (offset width : Nat)
  /-- The distance from a position to the limit was taken. -/
  | distance (limit offset : Nat)
  /-- A count was multiplied by the size of an element. -/
  | product (count unit : Nat)
  /-- Room was made for so many elements while so many bytes were left. -/
  | reserve (count unit remaining : Nat)
  deriving DecidableEq, Repr

/-- The state of a walk over a block. -/
structure Scanner where
  /-- The bytes from the position on. -/
  rest : Bytes
  /-- The position. -/
  offset : Nat
  /-- The position at which the block ends. -/
  limit : Nat
  /-- The account, the last entry first. -/
  touches : List Touch
  deriving DecidableEq, Repr

/-- A scanner at the front of a byte string. -/
def Scanner.start (bs : Bytes) : Scanner where
  rest := bs
  offset := 0
  limit := bs.length
  touches := []

/-- A walk that gives a value or fails, and moves the scanner in both cases. -/
abbrev Scan := ExceptT Fault (StateM Scanner)

namespace Scan

variable {α : Type}

/-- Walks over a byte string from its front. -/
def runOn (scan : Scan α) (bs : Bytes) : Except Fault α × Scanner :=
  (scan.run).run (Scanner.start bs)

/-- Makes an entry in the account. -/
def note (touch : Touch) : Scan Unit :=
  modify fun s => { s with touches := touch :: s.touches }

/-- Moves on without reading. -/
def skip (width : Nat) : Scan Unit :=
  modify fun s => { s with rest := s.rest.drop width, offset := s.offset + width }

/-- Sets the position at which the block ends. -/
def setLimit (limit : Nat) : Scan Unit :=
  modify fun s => { s with limit := limit }

/-- Reads some of the bytes ahead and stays in place. -/
def look (ahead width : Nat) : Scan Bytes := do
  let s ← get
  note (.read (s.offset + ahead) width)
  return s.rest.window ahead width

/-- Reads bytes and moves past them. -/
def take (width : Nat) : Scan Bytes := do
  let bs ← look 0 width
  skip width
  return bs

/-- Reads a number. -/
def number (width : Nat) : Scan Nat := do
  return LittleEndian.decode (← take width)

/-- Reads a text field. -/
def text (width : Nat) : Scan Text := do
  return FixedText.decode (← take width)

/-- The number of bytes up to the limit. -/
def remaining : Scan Nat := do
  let s ← get
  note (.distance s.limit s.offset)
  return s.limit - s.offset

/-- Reads a number of four bytes if that many are left. -/
def word (short : Nat → Fault) : Scan Nat := do
  let available ← remaining
  if available < 4 then
    throw (short available)
  else
    number 4

/-- Reads a text field if it is there in full. -/
def checkedText (width : Nat) : Scan Text := do
  let available ← remaining
  if available < width then
    throw (.shortText width available)
  else
    text width

/-- Makes room for so many elements of at least `unit` bytes if they fit into what is left. -/
def ensure (count unit : Nat) (excess : Nat → Fault) : Scan Unit := do
  note (.product count unit)
  let available ← remaining
  if available < count * unit then
    throw (excess available)
  else
    note (.reserve count unit available)

/-- So many elements in a row. -/
def repeated (element : Scan α) : Nat → Scan (List α)
  | 0 => return []
  | n + 1 => do
    let first ← element
    let others ← repeated element n
    return first :: others

end Scan

end MarketWire
