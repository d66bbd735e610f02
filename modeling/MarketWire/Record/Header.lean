import MarketWire.Bytes.LittleEndian
import MarketWire.Fault
import MarketWire.Record.RType

/-!
# Record headers

Every record begins with sixteen bytes that give its size in words of four bytes, its type, the
publisher, the instrument, and the time of the event.
-/

namespace MarketWire

/-- The header of a record. -/
structure Header where
  /-- The size of the record in units of four bytes, the header included. -/
  length : UInt8
  /-- The record type code. -/
  rtype : UInt8
  /-- The publisher. -/
  publisherId : UInt16
  /-- The instrument. -/
  productId : UInt32
  /-- The time of the event in nanoseconds since 1970. -/
  tsEvent : UInt64
  deriving DecidableEq, Repr

namespace Header

/-- The size of the record in bytes. -/
def recordSize (h : Header) : Nat :=
  lengthUnit * h.length.toNat

/-- The header at the front of a byte string. -/
def ofBytes (bs : Bytes) : Header where
  length := bs.getD 0 0
  rtype := bs.getD 1 0
  publisherId := UInt16.ofNat (LittleEndian.decode (bs.window 2 2))
  productId := UInt32.ofNat (LittleEndian.decode (bs.window 4 4))
  tsEvent := UInt64.ofNat (LittleEndian.decode (bs.window 8 8))

/-- The sixteen bytes of a header. -/
def toBytes (h : Header) : Bytes :=
  [h.length, h.rtype] ++ LittleEndian.encode 2 h.publisherId.toNat ++
    LittleEndian.encode 4 h.productId.toNat ++ LittleEndian.encode 8 h.tsEvent.toNat

/-- A header for a record of the given layout, whose size it announces. -/
def create (t : RecordType) (rtype : UInt8) (publisherId : UInt16) (productId : UInt32)
    (tsEvent : UInt64) : Header where
  length := UInt8.ofNat (t.size / lengthUnit)
  rtype := rtype
  publisherId := publisherId
  productId := productId
  tsEvent := tsEvent

/-- The catalog entry of the record type code. -/
def rtypeEntry (h : Header) : Except Fault RType :=
  match RType.ofCode? h.rtype with
  | some r => .ok r
  | none => .error (.unknownRType h.rtype)

/-- A header announces the size of the layout it was made for. -/
theorem recordSize_create (t : RecordType) (rtype : UInt8) (publisherId : UInt16)
    (productId : UInt32) (tsEvent : UInt64) :
    (create t rtype publisherId productId tsEvent).recordSize = t.size := by
  cases t <;> rfl

/-- A header that is there does not depend on what follows it. -/
theorem ofBytes_append {bs : Bytes} (h : headerSize ≤ bs.length) (more : Bytes) :
    ofBytes (bs ++ more) = ofBytes bs := by
  rw [headerSize] at h
  have hget : ∀ i, i < 2 → (bs ++ more).getD i 0 = bs.getD i 0 := fun i hi => by
    rw [List.getD_eq_getElem?_getD, List.getD_eq_getElem?_getD,
      List.getElem?_append_left (by omega)]
  simp only [ofBytes, hget 0 (by omega), hget 1 (by omega),
    Bytes.window_append (show 2 + 2 ≤ bs.length by omega),
    Bytes.window_append (show 4 + 4 ≤ bs.length by omega),
    Bytes.window_append (show 8 + 8 ≤ bs.length by omega)]

theorem ofBytes_take {bs : Bytes} {size : Nat} (h : headerSize ≤ size)
    (hsize : size ≤ bs.length) : ofBytes (bs.take size) = ofBytes bs := by
  rw [← ofBytes_append (by rwa [List.length_take_of_le hsize]) (bs.drop size),
    List.take_append_drop]

end Header

end MarketWire
