import MarketWire.Record.Basic

/-!
# Record encoders

An encoder takes records one by one. Ahead of the records of a type it may write a header, and what
it has written may wait until it is flushed.
-/

namespace MarketWire

/-- Encoders of records. -/
class RecordEncoder (ε : Type) where
  /-- Encodes a record. -/
  encodeRecord : ε → Record → Outcome × ε
  /-- Writes what the format places ahead of records with this record type code. -/
  encodeHeader : ε → UInt8 → Outcome × ε
  /-- Passes on what was written. -/
  flush : ε → Outcome × ε

end MarketWire
