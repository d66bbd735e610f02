import MarketWire.Record.RType

/-!
# Schemas and symbology types

A stream of one kind of records is described by its schema, and symbols are given and resolved in
one of several ways, the symbology types. Both are open codes: metadata may carry a code that is
not listed, which can be written but not read back.
-/

namespace MarketWire

/-! ### Schemas -/

/-- The code of a schema. -/
structure Schema where
  /-- The code as it is written. -/
  code : UInt16
  deriving DecidableEq, Repr

namespace Schema

/-- The code that stands for a stream of several schemas. -/
def mixedCode : UInt16 := 0xFFFF

/-- The listed schemas in the order of their codes: the name and the record type of each. -/
def listed : List (Text × RType) :=
  [(Text.ofAscii "mbo", .mbo), (Text.ofAscii "mbp-10", .mbp10), (Text.ofAscii "mbp-1", .mbp1),
    (Text.ofAscii "tbbo", .mbp1), (Text.ofAscii "trades", .mbp0),
    (Text.ofAscii "ohlcv-1s", .ohlcv1S), (Text.ofAscii "ohlcv-1m", .ohlcv1M),
    (Text.ofAscii "ohlcv-1h", .ohlcv1H), (Text.ofAscii "ohlcv-1d", .ohlcv1D),
    (Text.ofAscii "definition", .instrumentDef), (Text.ofAscii "statistics", .statistics),
    (Text.ofAscii "status", .status), (Text.ofAscii "imbalance", .imbalance)]

/-- The number of listed schemas. -/
def count : Nat := 13

theorem length_listed : listed.length = count := rfl

/-- Whether a schema is listed. -/
def IsListed (s : Schema) : Prop :=
  s.code.toNat < count

instance (s : Schema) : Decidable s.IsListed :=
  inferInstanceAs (Decidable (s.code.toNat < count))

/-- The name of a schema, with a word for those that are not listed. -/
def name (s : Schema) : Text :=
  match listed[s.code.toNat]? with
  | some entry => entry.1
  | none => Text.ofAscii "unknown"

/-- The code of the records of a schema. Those that are not listed share the last one's. -/
def rtype (s : Schema) : RType :=
  match listed[s.code.toNat]? with
  | some entry => entry.2
  | none => .imbalance

/-- The listed schema with the given name. -/
def ofName? (name : Text) : Option Schema :=
  (listed.findIdx? fun entry => entry.1 == name).map fun i => ⟨UInt16.ofNat i⟩

end Schema

/-! ### Symbology types -/

/-- The code of a symbology type. -/
structure SymbologyType where
  /-- The code as it is written. -/
  code : UInt8
  deriving DecidableEq, Repr

namespace SymbologyType

/-- Numeric instrument identifiers. -/
def productId : SymbologyType := ⟨0⟩

/-- The symbols of the venue. -/
def native : SymbologyType := ⟨1⟩

/-- Symbols that name an instrument by a rule. -/
def smart : SymbologyType := ⟨2⟩

/-- The names of the listed symbology types in the order of their codes. -/
def listed : List Text :=
  [Text.ofAscii "product_id", Text.ofAscii "native", Text.ofAscii "smart"]

/-- The number of listed symbology types. -/
def count : Nat := 3

theorem length_listed : listed.length = count := rfl

/-- Whether a symbology type is listed. -/
def IsListed (s : SymbologyType) : Prop :=
  s.code.toNat < count

instance (s : SymbologyType) : Decidable s.IsListed :=
  inferInstanceAs (Decidable (s.code.toNat < count))

/-- The name of a symbology type, with a word for those that are not listed. -/
def name (s : SymbologyType) : Text :=
  listed.getD s.code.toNat (Text.ofAscii "unknown")

/-- The listed symbology type with the given name. -/
def ofName? (name : Text) : Option SymbologyType :=
  (listed.findIdx? fun entry => entry == name).map fun i => ⟨UInt8.ofNat i⟩

end SymbologyType

end MarketWire
