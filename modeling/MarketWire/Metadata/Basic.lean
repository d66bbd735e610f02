import MarketWire.Bytes.LittleEndian
import MarketWire.Schema

/-!
# Metadata

Every stream begins with metadata: which data it holds, for which time and symbols, and how the
symbols were resolved. On the wire it is a block of the form

| part | bytes |
|---|---|
| magic `DBN` and version | 3 + 1 |
| frame length, which counts what follows it | 4 |
| dataset | 16, filled up with NULs |
| schema, `0xFFFF` for a mix | 2 |
| start, end, limit, record count | 4 × 8 |
| symbology of the input and of the output | 1 + 1 |
| whether records carry a send timestamp | 1 |
| reserved | 47 |
| length of a schema definition, always zero | 4 |
| symbols, partial symbols, symbols not found | each a count of 4 and 22 for each symbol |
| mappings | a count of 4 and for each mapping 22 + 4 and 30 for each interval |

All numbers are little-endian. An end of all ones and a limit of zero stand for none.

## Main definitions

* `Metadata` — the contents of the block.
* `Metadata.Totals` — the four fields that may become known only when the records do.
-/

namespace MarketWire

/-! ### Contents -/

/-- The days on which a symbol resolved to another one, the last day excluded. -/
structure MappingInterval where
  /-- The first day, written as the digits of year, month and day. -/
  startDate : UInt32 := 0
  /-- The day after the last one. -/
  endDate : UInt32 := 0
  /-- What the symbol resolved to. -/
  symbol : Text := []
  deriving DecidableEq, Repr

/-- How one symbol resolved over time. -/
structure SymbolMapping where
  /-- The symbol. -/
  nativeSymbol : Text := []
  /-- Its resolutions. -/
  intervals : List MappingInterval := []
  deriving DecidableEq, Repr

/-- The description that a stream begins with. -/
structure Metadata where
  /-- The version of the encoding. -/
  version : UInt8 := 1
  /-- The code of the dataset. -/
  dataset : Text := []
  /-- The schema of all records, or none for a mix. -/
  schema : Option Schema := none
  /-- The first nanosecond of the query since 1970. -/
  startTs : UInt64 := 0
  /-- The nanosecond after the last one of the query. -/
  endTs : Option UInt64 := none
  /-- The number of records that was asked for at most. -/
  limit : Option UInt64 := none
  /-- The number of records. -/
  recordCount : UInt64 := 0
  /-- How the symbols of the query were given. -/
  stypeIn : SymbologyType := .native
  /-- How the records name their instruments. -/
  stypeOut : SymbologyType := .productId
  /-- Whether a send timestamp follows each record. -/
  tsOut : Bool := false
  /-- The symbols of the query. -/
  symbols : List Text := []
  /-- The symbols that resolved on some days only. -/
  partialSymbols : List Text := []
  /-- The symbols that resolved on no day. -/
  notFound : List Text := []
  /-- The resolutions. -/
  mappings : List SymbolMapping := []
  deriving DecidableEq, Repr

/-! ### The format -/

namespace Metadata

/-- The bytes that every block begins with: the letters `DBN`. -/
def magic : Bytes := [0x44, 0x42, 0x4E]

/-- The version of the format. -/
def formatVersion : UInt8 := 1

/-- The size of magic, version and frame length. -/
def prologueSize : Nat := 8

/-- The width of the dataset. -/
def datasetWidth : Nat := 16

/-- The width of a symbol. -/
def symbolWidth : Nat := 22

/-- The size of a count. -/
def countSize : Nat := 4

/-- The number of reserved bytes. -/
def reservedSize : Nat := 47

/-- The size of the frame up to the first list. -/
def fixedSize : Nat := datasetWidth + 2 + 4 * 8 + 3 + reservedSize + 4

/-- The size of a frame whose four lists are empty. -/
def minFrameSize : Nat := fixedSize + 4 * countSize

/-- The size of a mapping without intervals. -/
def mappingSize : Nat := symbolWidth + countSize

/-- The size of an interval. -/
def intervalSize : Nat := 4 + 4 + symbolWidth

/-- The largest frame length that can be written. -/
def maxFrameSize : Nat := 0xFFFFFFFF

/-- The number that stands for no end. -/
def noEndTs : UInt64 := 0xFFFFFFFFFFFFFFFF

/-! ### Totals -/

/-- The fields that may become known only when the records do. -/
structure Totals where
  /-- The first nanosecond of the query since 1970. -/
  startTs : UInt64
  /-- The nanosecond after the last one of the query. -/
  endTs : Option UInt64
  /-- The number of records that was asked for at most. -/
  limit : Option UInt64
  /-- The number of records. -/
  recordCount : UInt64
  deriving DecidableEq, Repr

namespace Totals

/-- The position of the fields in a block. -/
def offset : Nat := prologueSize + datasetWidth + 2

/-- The size of the fields. -/
def size : Nat := 4 * 8

/-- The bytes of the fields. -/
def toBytes (t : Totals) : Bytes :=
  LittleEndian.encode 8 t.startTs.toNat ++ LittleEndian.encode 8 (t.endTs.getD noEndTs).toNat ++
    LittleEndian.encode 8 (t.limit.getD 0).toNat ++ LittleEndian.encode 8 t.recordCount.toNat

@[simp] theorem length_toBytes (t : Totals) : t.toBytes.length = size := by
  simp [toBytes, size]

end Totals

/-- The totals of metadata. -/
def totals (m : Metadata) : Totals where
  startTs := m.startTs
  endTs := m.endTs
  limit := m.limit
  recordCount := m.recordCount

/-- The metadata with other totals. -/
def withTotals (m : Metadata) (t : Totals) : Metadata :=
  { m with startTs := t.startTs, endTs := t.endTs, limit := t.limit, recordCount := t.recordCount }

end Metadata

end MarketWire
