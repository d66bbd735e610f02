import MarketWire.Bytes.Text
import MarketWire.Record.Catalog

/-!
# Record type codes

Each record names its type by a code of one byte. A code says a little more than the layout: the
bars of every interval share one layout and have a code each.

## Main definitions

* `RType` — the codes of the catalog.
* `RType.ofCode?` — the catalog entry of a byte, if it has one.
* `RType.minSize` — the least size of a record with a code.
* `RType.recordType` — the layout that a code designates.
* `RecordType.codes`, `RecordType.accepts` — the codes of a layout, and whether a byte is one.

The last three are written down one by one, and each is asked at another place: the size before a
record is taken off a stream, the layout when its bytes are looked at, the codes when one layout is
expected. That they fit together is `RType.minSize_eq` and `RecordType.mem_codes`.
-/

namespace MarketWire

/-- A record type code of the catalog. -/
inductive RType
  | mbp0
  | mbp1
  | mbp10
  | ohlcvDeprecated
  | status
  | instrumentDef
  | imbalance
  | error
  | symbolMapping
  | system
  | statistics
  | ohlcv1S
  | ohlcv1M
  | ohlcv1H
  | ohlcv1D
  | mbo
  deriving DecidableEq, Repr

namespace RType

/-- The codes in increasing order of their bytes. -/
def all : List RType :=
  [.mbp0, .mbp1, .mbp10, .ohlcvDeprecated, .status, .instrumentDef, .imbalance, .error,
    .symbolMapping, .system, .statistics, .ohlcv1S, .ohlcv1M, .ohlcv1H, .ohlcv1D, .mbo]

/-- The byte of a code. -/
def code : RType → UInt8
  | .mbp0 => 0x00
  | .mbp1 => 0x01
  | .mbp10 => 0x0A
  | .ohlcvDeprecated => 0x11
  | .status => 0x12
  | .instrumentDef => 0x13
  | .imbalance => 0x14
  | .error => 0x15
  | .symbolMapping => 0x16
  | .system => 0x17
  | .statistics => 0x18
  | .ohlcv1S => 0x20
  | .ohlcv1M => 0x21
  | .ohlcv1H => 0x22
  | .ohlcv1D => 0x23
  | .mbo => 0xA0

/-- The name of a code. -/
def name : RType → Text
  | .mbp0 => Text.ofAscii "Mbp0"
  | .mbp1 => Text.ofAscii "Mbp1"
  | .mbp10 => Text.ofAscii "Mbp10"
  | .ohlcvDeprecated => Text.ofAscii "OhlcvDeprecated"
  | .status => Text.ofAscii "Status"
  | .instrumentDef => Text.ofAscii "InstrumentDef"
  | .imbalance => Text.ofAscii "Imbalance"
  | .error => Text.ofAscii "Error"
  | .symbolMapping => Text.ofAscii "SymbolMapping"
  | .system => Text.ofAscii "System"
  | .statistics => Text.ofAscii "Statistics"
  | .ohlcv1S => Text.ofAscii "Ohlcv1S"
  | .ohlcv1M => Text.ofAscii "Ohlcv1M"
  | .ohlcv1H => Text.ofAscii "Ohlcv1H"
  | .ohlcv1D => Text.ofAscii "Ohlcv1D"
  | .mbo => Text.ofAscii "Mbo"

/-- The least size in bytes of a record with this code. -/
def minSize : RType → Nat
  | .mbp0 => RecordType.trade.size
  | .mbp1 => RecordType.mbp1.size
  | .mbp10 => RecordType.mbp10.size
  | .ohlcvDeprecated | .ohlcv1S | .ohlcv1M | .ohlcv1H | .ohlcv1D => RecordType.ohlcv.size
  | .status => RecordType.status.size
  | .instrumentDef => RecordType.instrumentDef.size
  | .imbalance => RecordType.imbalance.size
  | .error => RecordType.error.size
  | .symbolMapping => RecordType.symbolMapping.size
  | .system => RecordType.system.size
  | .statistics => RecordType.stat.size
  | .mbo => RecordType.mbo.size

/-- The layout of the records with this code. -/
def recordType : RType → RecordType
  | .mbp0 => .trade
  | .mbp1 => .mbp1
  | .mbp10 => .mbp10
  | .ohlcvDeprecated | .ohlcv1S | .ohlcv1M | .ohlcv1H | .ohlcv1D => .ohlcv
  | .status => .status
  | .instrumentDef => .instrumentDef
  | .imbalance => .imbalance
  | .error => .error
  | .symbolMapping => .symbolMapping
  | .system => .system
  | .statistics => .stat
  | .mbo => .mbo

/-- The code whose byte is given. -/
def ofCode? (byte : UInt8) : Option RType :=
  all.find? fun r => r.code == byte

/-- The name of the code whose byte is given, with a word for bytes outside the catalog. -/
def nameOfCode (byte : UInt8) : Text :=
  match ofCode? byte with
  | some r => r.name
  | none => Text.ofAscii "Unknown"

/-- The least size in bytes of a record with the given byte as its code. Outside the catalog this
is the size of the header alone. -/
def minSizeOfCode (byte : UInt8) : Nat :=
  match ofCode? byte with
  | some r => r.minSize
  | none => headerSize

@[simp] theorem ofCode?_code (r : RType) : ofCode? r.code = some r := by
  cases r <;> rfl

/-- A byte belongs to the one code that has it. -/
theorem ofCode?_eq_some_iff {byte : UInt8} {r : RType} : ofCode? byte = some r ↔ r.code = byte := by
  constructor
  · intro h
    simpa using List.find?_some h
  · rintro rfl
    exact ofCode?_code r

/-- The least size of a record is that of its layout. -/
theorem minSize_eq (r : RType) : r.minSize = r.recordType.size := by
  cases r <;> rfl

end RType

namespace RecordType

/-- The codes that a layout lists as its own. -/
def codes : RecordType → List RType
  | .mbo => [.mbo]
  | .trade => [.mbp0]
  | .mbp1 => [.mbp1]
  | .mbp10 => [.mbp10]
  | .ohlcv => [.ohlcvDeprecated, .ohlcv1S, .ohlcv1M, .ohlcv1H, .ohlcv1D]
  | .status => [.status]
  | .instrumentDef => [.instrumentDef]
  | .imbalance => [.imbalance]
  | .stat => [.statistics]
  | .error => [.error]
  | .symbolMapping => [.symbolMapping]
  | .system => [.system]

/-- Whether records with the given byte as their code have this layout. -/
def accepts (t : RecordType) (byte : UInt8) : Bool :=
  t.codes.any fun r => r.code == byte

/-- The lowest code that a layout accepts, if it accepts one. -/
def leadingRType? (t : RecordType) : Option RType :=
  RType.all.find? fun r => t.accepts r.code

/-- The layouts list the codes that designate them. -/
theorem mem_codes {t : RecordType} {r : RType} : r ∈ t.codes ↔ r.recordType = t := by
  cases t <;> cases r <;> decide

/-- A layout accepts the bytes whose catalog entry designates it. -/
theorem accepts_iff {t : RecordType} {byte : UInt8} :
    t.accepts byte = true ↔ ∃ r, RType.ofCode? byte = some r ∧ r.recordType = t := by
  simp only [accepts, List.any_eq_true, mem_codes, beq_iff_eq, RType.ofCode?_eq_some_iff,
    and_comm]

end RecordType

end MarketWire
