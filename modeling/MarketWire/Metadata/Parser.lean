import MarketWire.Metadata.Basic
import MarketWire.Metadata.Scan

/-!
# Reading metadata

The size of a block is known from its first eight bytes, and each of these is judged as soon as it
is there: a stream that cannot be metadata is refused before the rest of it arrives. A whole block
is then read field by field. The fixed fields need no bounds check, the frame being long enough for
them; every list is preceded by a count, and no count is believed before its elements are known to
fit.

## Main definitions

* `Metadata.peekLength` — the size of the block, once enough of it is there.
* `Metadata.parse` — the contents of a whole block.
* `Metadata.parseOnto` — the same in place of metadata already there.
* `Metadata.parseTouches`, `Metadata.peekTouches` — what was touched on the way.
-/

namespace MarketWire

namespace Metadata

/-! ### The size of a block -/

/-- Compares the bytes ahead with the expected ones as far as both go. -/
def scanMagic (available : Nat) : (expected : Bytes) → (index : Nat) → Scan Unit
  | [], _ => return
  | byte :: expected, index =>
    if index < available then do
      let found := (← Scan.look index 1).headD 0
      if found = byte then
        scanMagic available expected (index + 1)
      else
        throw (.badMagic found index)
    else
      return

/-- The size of the block ahead, of which so many bytes are there, or nothing while they are too
few to tell. -/
def scanLength (available : Nat) : Scan (Option Nat) := do
  scanMagic available magic 0
  if available < magic.length + 1 then
    return none
  else
    let version := (← Scan.look magic.length 1).headD 0
    if version ≠ formatVersion then
      throw (.unsupportedVersion version)
    else if available < prologueSize then
      return none
    else
      let frame := LittleEndian.decode (← Scan.look (magic.length + 1) 4)
      if frame < minFrameSize then
        throw (.shortFrame frame)
      else
        return some (prologueSize + frame)

/-- The size of the block at the front of a byte string. It is unknown while fewer than eight bytes
are there, and a fault as soon as a byte cannot belong to metadata of a known version. -/
def peekLength (bs : Bytes) : Except Fault (Option Nat) :=
  ((scanLength bs.length).runOn bs).1

/-! ### The contents of a block -/

/-- The schema behind its code. -/
def scanSchema : Scan (Option Schema) := do
  let code := UInt16.ofNat (← Scan.number 2)
  if code = Schema.mixedCode then
    return none
  else if Schema.IsListed ⟨code⟩ then
    return some ⟨code⟩
  else
    throw (.invalidSchema code)

/-- The totals, an end of all ones and a limit of zero being none. -/
def scanTotals : Scan Totals := do
  let startTs := UInt64.ofNat (← Scan.number 8)
  let endTs := UInt64.ofNat (← Scan.number 8)
  let limit := UInt64.ofNat (← Scan.number 8)
  let recordCount := UInt64.ofNat (← Scan.number 8)
  return {
    startTs := startTs
    endTs := if endTs = noEndTs then none else some endTs
    limit := if limit = 0 then none else some limit
    recordCount := recordCount }

/-- The symbology types of input and output. -/
def scanSymbologyTypes : Scan (SymbologyType × SymbologyType) := do
  let stypeIn : SymbologyType := ⟨UInt8.ofNat (← Scan.number 1)⟩
  let stypeOut : SymbologyType := ⟨UInt8.ofNat (← Scan.number 1)⟩
  if stypeIn.IsListed ∧ stypeOut.IsListed then
    return (stypeIn, stypeOut)
  else
    throw (.invalidSymbolTypes stypeIn.code stypeOut.code)

/-- The flag for send timestamps. -/
def scanTsOut : Scan Bool := do
  let flag := UInt8.ofNat (← Scan.number 1)
  if flag ≤ 1 then
    return flag = 1
  else
    throw (.invalidTsOutFlag flag)

/-- The length of the schema definition, which must be zero. -/
def scanSchemaDefinition : Scan Unit := do
  let length ← Scan.number 4
  if length = 0 then
    return
  else
    throw (.schemaDefinition length)

/-- A list behind its count, whose elements take at least `unit` bytes each. -/
def scanList {α : Type} (element : Scan α) (unit : Nat) (short : Nat → Fault)
    (excess : Nat → Nat → Fault) : Scan (List α) := do
  let count ← Scan.word short
  Scan.ensure count unit (excess count)
  Scan.repeated element count

/-- A list of symbols. -/
def scanSymbols : Scan (List Text) :=
  scanList (Scan.text symbolWidth) symbolWidth .shortSymbolCount .excessSymbols

/-- An interval of a mapping. -/
def scanInterval : Scan MappingInterval := do
  let startDate := UInt32.ofNat (← Scan.number 4)
  let endDate := UInt32.ofNat (← Scan.number 4)
  let symbol ← Scan.text symbolWidth
  return { startDate := startDate, endDate := endDate, symbol := symbol }

/-- A mapping. -/
def scanMapping : Scan SymbolMapping := do
  let nativeSymbol ← Scan.checkedText symbolWidth
  let intervals ← scanList scanInterval intervalSize .shortWord fun count =>
    .excessIntervals count nativeSymbol
  return { nativeSymbol := nativeSymbol, intervals := intervals }

/-- The list of mappings. -/
def scanMappings : Scan (List SymbolMapping) :=
  scanList scanMapping mappingSize .shortWord .excessMappings

/-- The contents of a block of the given version, from the frame on. -/
def scanFrame (version : UInt8) : Scan Metadata := do
  let dataset ← Scan.text datasetWidth
  let schema ← scanSchema
  let totals ← scanTotals
  let (stypeIn, stypeOut) ← scanSymbologyTypes
  let tsOut ← scanTsOut
  Scan.skip reservedSize
  scanSchemaDefinition
  let symbols ← scanSymbols
  let partialSymbols ← scanSymbols
  let notFound ← scanSymbols
  let mappings ← scanMappings
  return {
    version := version
    dataset := dataset
    schema := schema
    startTs := totals.startTs
    endTs := totals.endTs
    limit := totals.limit
    recordCount := totals.recordCount
    stypeIn := stypeIn
    stypeOut := stypeOut
    tsOut := tsOut
    symbols := symbols
    partialSymbols := partialSymbols
    notFound := notFound
    mappings := mappings }

/-- The contents of the block ahead, of which so many bytes are there. -/
def scanBlock (available : Nat) : Scan Metadata := do
  match ← scanLength available with
  | none => throw (.incompletePreamble available)
  | some length =>
    if available < length then
      throw (.incompletePreamble available)
    else
      let version := (← Scan.look magic.length 1).headD 0
      Scan.setLimit length
      Scan.skip prologueSize
      scanFrame version

/-- The contents of the block at the front of a byte string. What follows the block is ignored, and
so is what follows the last mapping within it. -/
def parse (bs : Bytes) : Except Fault Metadata :=
  ((scanBlock bs.length).runOn bs).1

/-- Reads the block at the front of a byte string into metadata already there, which is replaced only
once the whole block has been read. -/
def parseOnto (bs : Bytes) : ExceptT Fault (StateM Metadata) Unit := do
  let metadata ← (parse bs : Except Fault Metadata)
  set metadata

/-- What the scanner touched while it read the block, the last first. -/
def parseTouches (bs : Bytes) : List Touch :=
  ((scanBlock bs.length).runOn bs).2.touches

/-- What the scanner touched while it looked for the size of the block, the last first. -/
def peekTouches (bs : Bytes) : List Touch :=
  ((scanLength bs.length).runOn bs).2.touches

end Metadata

end MarketWire
