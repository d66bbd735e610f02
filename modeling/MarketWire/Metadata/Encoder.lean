import MarketWire.Metadata.Parser

/-!
# Writing metadata

A block is written completely or not at all. The version is judged first, then each text in the
order of the format, and last the size of the whole frame. Nothing else is refused, so codes that
are not listed are written as they are.

## Main definitions

* `Metadata.encode` — the bytes of a block.
* `Metadata.encodeOnto` — the same behind bytes already there.
* `Metadata.patch` — other totals in a block already written.
-/

namespace MarketWire

namespace Metadata

/-! ### Blocks -/

/-- The encodings of all elements one after another, or the first fault. -/
def concatEncoded {α : Type} (encode : α → Except Fault Bytes) : List α → Except Fault Bytes
  | [] => .ok []
  | a :: as => do
    let first ← encode a
    let others ← concatEncoded encode as
    return first ++ others

/-- A list of elements behind its count. -/
def encodeList {α : Type} (encode : α → Except Fault Bytes) (as : List α) : Except Fault Bytes := do
  let elements ← concatEncoded encode as
  return LittleEndian.encode countSize as.length ++ elements

/-- A symbol in its field. -/
def encodeSymbol (field : String) (symbol : Text) : Except Fault Bytes :=
  FixedText.encode (Text.ofAscii field) symbolWidth symbol

/-- An interval of a mapping. -/
def encodeInterval (i : MappingInterval) : Except Fault Bytes := do
  let symbol ← encodeSymbol "mapped symbol" i.symbol
  return LittleEndian.encode 4 i.startDate.toNat ++ LittleEndian.encode 4 i.endDate.toNat ++ symbol

/-- A mapping. -/
def encodeMapping (m : SymbolMapping) : Except Fault Bytes := do
  let nativeSymbol ← encodeSymbol "native symbol" m.nativeSymbol
  let intervals ← encodeList encodeInterval m.intervals
  return nativeSymbol ++ intervals

/-- The code that is written for a schema. -/
def schemaCode (m : Metadata) : UInt16 :=
  match m.schema with
  | some schema => schema.code
  | none => Schema.mixedCode

/-- The fixed fields behind the dataset. -/
def fixedFields (m : Metadata) : Bytes :=
  LittleEndian.encode 2 m.schemaCode.toNat ++ m.totals.toBytes ++
    [m.stypeIn.code, m.stypeOut.code, if m.tsOut then 1 else 0] ++
    List.replicate reservedSize 0 ++ LittleEndian.encode 4 0

/-- The frame of a block. -/
def encodeFrame (m : Metadata) : Except Fault Bytes := do
  let dataset ← FixedText.encode (Text.ofAscii "dataset") datasetWidth m.dataset
  let symbols ← encodeList (encodeSymbol "symbol") m.symbols
  let partialSymbols ← encodeList (encodeSymbol "partial symbol") m.partialSymbols
  let notFound ← encodeList (encodeSymbol "not found symbol") m.notFound
  let mappings ← encodeList encodeMapping m.mappings
  return dataset ++ m.fixedFields ++ symbols ++ partialSymbols ++ notFound ++ mappings

/-- The bytes of a block. -/
def encode (m : Metadata) : Except Fault Bytes := do
  if m.version ≠ formatVersion then
    throw (.unwritableVersion m.version)
  else
    let frame ← m.encodeFrame
    if maxFrameSize < frame.length then
      throw (.oversizedFrame frame.length)
    else
      return magic ++ [m.version] ++ LittleEndian.encode 4 frame.length ++ frame

/-- The bytes of a block behind those already written, which stay alone if it cannot be written. -/
def encodeOnto (m : Metadata) (written : Bytes) : Outcome × Bytes :=
  match m.encode with
  | .ok block => (.ok (), written ++ block)
  | .error fault => (.error fault, written)

/-! ### Totals of a block already written -/

/-- Replaces the totals in the block at the front of a byte string, which is left alone unless it
holds a whole block. -/
def patch (bs : Bytes) (totals : Totals) : Outcome × Bytes :=
  match peekLength bs with
  | .error fault => (.error fault, bs)
  | .ok none => (.error (.unpatchable bs.length), bs)
  | .ok (some length) =>
    if bs.length < length then
      (.error (.unpatchable bs.length), bs)
    else
      (.ok (), bs.take Totals.offset ++ totals.toBytes ++ bs.drop (Totals.offset + Totals.size))

end Metadata

end MarketWire
