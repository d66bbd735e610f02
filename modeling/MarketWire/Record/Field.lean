import MarketWire.Bytes.FixedText
import MarketWire.Bytes.LittleEndian
import MarketWire.Record.Member

/-!
# Fields

What is shown of a record are fields. A list of visits says which ones: each visit takes one member of
the record, gives it a name, and says as what its bytes are read. Such a list stands beside the row
of members and is not made from it. It may pass over a member, and nothing in its form keeps it from
visiting one twice or in the place of another.

## Main definitions

* `FieldKind`, `FieldValue`, `Field` — how bytes are understood, and what they then say.
* `Visit` — the member that is shown, its name and its reading.
* `Members.read` — the fields that a list of visits shows.
-/

namespace MarketWire

/-! ### Values -/

/-- How the bytes of a field are understood. -/
inductive FieldKind
  /-- A natural number of so many bytes. -/
  | unsigned (width : Nat)
  /-- An integer of so many bytes in two's complement. -/
  | signed (width : Nat)
  /-- A price in units of 1e-9. -/
  | price
  /-- A number of nanoseconds since 1970. -/
  | timestamp
  /-- A single character. -/
  | character
  /-- A text that is filled up with NULs to so many bytes. -/
  | text (width : Nat)
  deriving DecidableEq, Repr

/-- What a field says. -/
inductive FieldValue
  | integer (value : Int)
  | price (value : Int)
  | timestamp (value : Nat)
  | character (value : UInt8)
  | text (value : Text)
  deriving DecidableEq, Repr

namespace FieldKind

/-- The number of bytes of a field. -/
def width : FieldKind → Nat
  | .unsigned width => width
  | .signed width => width
  | .price => 8
  | .timestamp => 8
  | .character => 1
  | .text width => width

/-- The value that the bytes of a field stand for. -/
def decode : FieldKind → Bytes → FieldValue
  | .unsigned _, bs => .integer (LittleEndian.decode bs)
  | .signed _, bs => .integer (LittleEndian.decodeSigned bs)
  | .price, bs => .price (LittleEndian.decodeSigned bs)
  | .timestamp, bs => .timestamp (LittleEndian.decode bs)
  | .character, bs => .character (bs.headD 0)
  | .text _, bs => .text (FixedText.decode bs)

end FieldKind

/-- A field of a record together with its value. -/
structure Field where
  /-- The name of the field. -/
  name : Text
  /-- How its bytes were understood. -/
  kind : FieldKind
  /-- What they say. -/
  value : FieldValue
  deriving DecidableEq, Repr

/-! ### Visits -/

/-- As what a member is read. -/
inductive Reading
  /-- As the number that it holds. -/
  | number
  /-- As a price. -/
  | price
  /-- As a timestamp. -/
  | timestamp
  /-- As a character. -/
  | character
  /-- As a text up to its first NUL. -/
  | text
  deriving DecidableEq, Repr

/-- How the bytes of a member are understood. -/
def Reading.kind : Reading → MemberType → FieldKind
  | .number, .signed width => .signed width
  | .number, type => .unsigned type.width
  | .price, _ => .price
  | .timestamp, _ => .timestamp
  | .character, _ => .character
  | .text, type => .text type.width

/-- A member that is shown. -/
structure Visit where
  /-- The name under which it is shown. -/
  name : Text
  /-- The member. -/
  member : Member
  /-- As what it is read. -/
  reading : Reading
  deriving DecidableEq, Repr

namespace Visit

/-- A visit of a number. -/
def number (name : String) (member : Member) : Visit :=
  ⟨Text.ofAscii name, member, .number⟩

/-- A visit of a price. -/
def price (name : String) (member : Member) : Visit :=
  ⟨Text.ofAscii name, member, .price⟩

/-- A visit of a timestamp. -/
def timestamp (name : String) (member : Member) : Visit :=
  ⟨Text.ofAscii name, member, .timestamp⟩

/-- A visit of a character. -/
def character (name : String) (member : Member) : Visit :=
  ⟨Text.ofAscii name, member, .character⟩

/-- A visit of a text. -/
def text (name : String) (member : Member) : Visit :=
  ⟨Text.ofAscii name, member, .text⟩

/-- What is shown of a member that lies at the given place. -/
def field (visit : Visit) (place : MemberPlace) (bs : Bytes) : Field :=
  let kind := visit.reading.kind place.type
  ⟨visit.name, kind, kind.decode ((bs.drop place.start).take place.type.width)⟩

end Visit

/-- The fields that are shown of the bytes of some members, visit after visit. -/
def Members.read (members : Members) (visits : List Visit) (bs : Bytes) : List Field :=
  visits.filterMap fun visit => (members.place? visit.member).map (visit.field · bs)

/-- The field of a send timestamp. -/
def Field.tsOut (time : UInt64) : Field :=
  ⟨Text.ofAscii "ts_out", .timestamp, .timestamp time.toNat⟩

end MarketWire
