import MarketWire.Record.Member

/-!
# The record catalog

Records have one of twelve layouts. All begin with the same header, two of them end with the levels
of an order book, and none has a gap: the widths of the members add up to the size of the record,
which is a multiple of four so that the header can count it in words.

## Main definitions

* `RecordType` — the twelve layouts.
* `RecordType.size` — the size in bytes.
* `Members.header`, `RecordType.members`, `Members.bookLevel` — the members of a header, of the body
  behind it, and of each book level at the end.
-/

namespace MarketWire

/-- The size of the header that begins every record. -/
def headerSize : Nat := 16

/-- The header counts the size of a record in units of so many bytes. -/
def lengthUnit : Nat := 4

/-- The layout of a record. -/
inductive RecordType
  /-- An order book event. -/
  | mbo
  /-- A trade. -/
  | trade
  /-- A change of the best level of a book. -/
  | mbp1
  /-- A change of the ten best levels of a book. -/
  | mbp10
  /-- Open, high, low and close over an interval. -/
  | ohlcv
  /-- A trading status. -/
  | status
  /-- An instrument definition. -/
  | instrumentDef
  /-- An auction imbalance. -/
  | imbalance
  /-- A statistic of the venue. -/
  | stat
  /-- An error message of a gateway. -/
  | error
  /-- The resolution of a symbol. -/
  | symbolMapping
  /-- Any other message of a gateway. -/
  | system
  deriving DecidableEq, Repr

namespace RecordType

/-- The layouts in the order of the catalog. -/
def all : List RecordType :=
  [.mbo, .trade, .mbp1, .mbp10, .ohlcv, .status, .instrumentDef, .imbalance, .stat, .error,
    .symbolMapping, .system]

/-- The size of a record in bytes. -/
def size : RecordType → Nat
  | .mbo => 56
  | .trade => 48
  | .mbp1 => 80
  | .mbp10 => 368
  | .ohlcv => 56
  | .status => 48
  | .instrumentDef => 360
  | .imbalance => 112
  | .stat => 64
  | .error => 80
  | .symbolMapping => 80
  | .system => 80

/-- The number of book levels at the end of a record. -/
def depth : RecordType → Nat
  | .mbp1 => 1
  | .mbp10 => 10
  | _ => 0

end RecordType

/-! ### Members -/

namespace Members

/-- The header. Its first byte counts the words of the record. -/
def header : Members :=
  [(.length, .unsigned 1), (.rtype, .unsigned 1), (.publisherId, .unsigned 2),
    (.productId, .unsigned 4), (.tsEvent, .unsigned 8)]

/-- What trades and book changes have in common. -/
def marketByPrice : Members :=
  [(.price, .signed 8), (.size, .unsigned 4), (.action, .character), (.side, .character),
    (.flags, .unsigned 1), (.depth, .unsigned 1), (.tsRecv, .unsigned 8), (.tsInDelta, .signed 4),
    (.sequence, .unsigned 4)]

/-- One level of an order book. -/
def bookLevel : Members :=
  [(.bidPx, .signed 8), (.askPx, .signed 8), (.bidSz, .unsigned 4), (.askSz, .unsigned 4),
    (.bidCt, .unsigned 4), (.askCt, .unsigned 4)]

end Members

namespace RecordType

/-- The members between the header and the book levels. -/
def members : RecordType → Members
  | .mbo =>
    [(.orderId, .unsigned 8), (.price, .signed 8), (.size, .unsigned 4), (.flags, .unsigned 1),
      (.channelId, .unsigned 1), (.action, .character), (.side, .character),
      (.tsRecv, .unsigned 8), (.tsInDelta, .signed 4), (.sequence, .unsigned 4)]
  | .trade => Members.marketByPrice
  | .mbp1 => Members.marketByPrice
  | .mbp10 => Members.marketByPrice
  | .ohlcv =>
    [(.openPrice, .signed 8), (.highPrice, .signed 8), (.lowPrice, .signed 8),
      (.closePrice, .signed 8), (.volume, .unsigned 8)]
  | .status =>
    [(.tsRecv, .unsigned 8), (.group, .characters 21), (.tradingStatus, .unsigned 1),
      (.haltReason, .unsigned 1), (.tradingEvent, .unsigned 1)]
  | .instrumentDef =>
    [(.tsRecv, .unsigned 8), (.minPriceIncrement, .signed 8), (.displayFactor, .signed 8),
      (.expiration, .unsigned 8), (.activation, .unsigned 8), (.highLimitPrice, .signed 8),
      (.lowLimitPrice, .signed 8), (.maxPriceVariation, .signed 8),
      (.tradingReferencePrice, .signed 8), (.unitOfMeasureQty, .signed 8),
      (.minPriceIncrementAmount, .signed 8), (.priceRatio, .signed 8),
      (.instAttribValue, .signed 4), (.underlyingId, .unsigned 4), (.clearedVolume, .signed 4),
      (.marketDepthImplied, .signed 4), (.marketDepth, .signed 4),
      (.marketSegmentId, .unsigned 4), (.maxTradeVol, .unsigned 4), (.minLotSize, .signed 4),
      (.minLotSizeBlock, .signed 4), (.minLotSizeRoundLot, .signed 4),
      (.minTradeVol, .unsigned 4), (.openInterestQty, .signed 4),
      (.contractMultiplier, .signed 4), (.decayQuantity, .signed 4),
      (.originalContractSize, .signed 4), (.relatedSecurityId, .unsigned 4),
      (.tradingReferenceDate, .unsigned 2), (.applId, .signed 2), (.maturityYear, .unsigned 2),
      (.decayStartDate, .unsigned 2), (.channelId, .unsigned 2), (.currency, .characters 4),
      (.settlCurrency, .characters 4), (.secsubtype, .characters 6), (.symbol, .characters 22),
      (.group, .characters 21), (.exchange, .characters 5), (.asset, .characters 7),
      (.cfi, .characters 7), (.securityType, .characters 7), (.unitOfMeasure, .characters 31),
      (.underlying, .characters 21), (.related, .characters 21), (.matchAlgorithm, .character),
      (.mdSecurityTradingStatus, .unsigned 1), (.mainFraction, .unsigned 1),
      (.priceDisplayFormat, .unsigned 1), (.settlPriceType, .unsigned 1),
      (.subFraction, .unsigned 1), (.underlyingProduct, .unsigned 1),
      (.securityUpdateAction, .character), (.maturityMonth, .unsigned 1),
      (.maturityDay, .unsigned 1), (.maturityWeek, .unsigned 1),
      (.userDefinedInstrument, .character), (.contractMultiplierUnit, .signed 1),
      (.flowScheduleType, .signed 1), (.tickRule, .unsigned 1), (.reserved, .filler 3)]
  | .imbalance =>
    [(.tsRecv, .unsigned 8), (.refPrice, .signed 8), (.auctionTime, .unsigned 8),
      (.contBookClrPrice, .signed 8), (.auctInterestClrPrice, .signed 8),
      (.ssrFillingPrice, .signed 8), (.indMatchPrice, .signed 8), (.upperCollar, .signed 8),
      (.lowerCollar, .signed 8), (.pairedQty, .unsigned 4), (.totalImbalanceQty, .unsigned 4),
      (.marketImbalanceQty, .unsigned 4), (.unpairedQty, .unsigned 4), (.auctionType, .character),
      (.side, .character), (.auctionStatus, .unsigned 1), (.freezeStatus, .unsigned 1),
      (.numExtensions, .unsigned 1), (.unpairedSide, .character),
      (.significantImbalance, .character), (.reserved, .filler 1)]
  | .stat =>
    [(.tsRecv, .unsigned 8), (.tsRef, .unsigned 8), (.price, .signed 8), (.quantity, .signed 4),
      (.sequence, .unsigned 4), (.tsInDelta, .signed 4), (.statType, .unsigned 2),
      (.channelId, .unsigned 2), (.updateAction, .unsigned 1), (.statFlags, .unsigned 1),
      (.reserved, .filler 6)]
  | .error => [(.err, .characters 64)]
  | .symbolMapping =>
    [(.stypeInSymbol, .characters 22), (.stypeOutSymbol, .characters 22), (.reserved, .filler 4),
      (.startTs, .unsigned 8), (.endTs, .unsigned 8)]
  | .system => [(.msg, .characters 64)]

/-- The members of a record fill it exactly. -/
theorem width_members (t : RecordType) :
    Members.header.width + t.members.width + t.depth * Members.bookLevel.width = t.size := by
  cases t <;> rfl

theorem headerSize_le_size (t : RecordType) : headerSize ≤ t.size := by
  cases t <;> decide

/-- The size is a whole number of units that fits into a byte, also with eight bytes more. -/
theorem size_eq_lengthUnit_mul (t : RecordType) :
    t.size % lengthUnit = 0 ∧ (t.size + 8) / lengthUnit < 256 := by
  cases t <;> decide

end RecordType

end MarketWire
