/-!
# Members

A record is a row of members without gaps: one begins where the one before it ends. Members are known
by their names, whatever the record that they belong to, and a name says nothing about the place or
the bytes of the member. These follow from the row.

## Main definitions

* `Member`, `MemberType` — the names of members, and what their bytes hold.
* `Members` — rows of members in the order of their bytes.
* `Members.place?` — where a member lies in a row.
-/

namespace MarketWire

/-- The name of a member. -/
inductive Member
  -- In the header, and in the levels of a book.
  | length | rtype | publisherId | productId | tsEvent
  | bidPx | askPx | bidSz | askSz | bidCt | askCt
  -- In several types.
  | price | size | flags | channelId | action | side | depth | tsRecv | tsInDelta | sequence | group
  | reserved
  -- In order book events, bars and statuses.
  | orderId
  | openPrice | highPrice | lowPrice | closePrice | volume
  | tradingStatus | haltReason | tradingEvent
  -- In instrument definitions.
  | minPriceIncrement | displayFactor | expiration | activation | highLimitPrice | lowLimitPrice
  | maxPriceVariation | tradingReferencePrice | unitOfMeasureQty | minPriceIncrementAmount
  | priceRatio | instAttribValue | underlyingId | clearedVolume | marketDepthImplied | marketDepth
  | marketSegmentId | maxTradeVol | minLotSize | minLotSizeBlock | minLotSizeRoundLot | minTradeVol
  | openInterestQty | contractMultiplier | decayQuantity | originalContractSize
  | relatedSecurityId | tradingReferenceDate | applId | maturityYear | decayStartDate | currency
  | settlCurrency | secsubtype | symbol | exchange | asset | cfi | securityType | unitOfMeasure
  | underlying | related | matchAlgorithm | mdSecurityTradingStatus | mainFraction
  | priceDisplayFormat | settlPriceType | subFraction | underlyingProduct | securityUpdateAction
  | maturityMonth | maturityDay | maturityWeek | userDefinedInstrument | contractMultiplierUnit
  | flowScheduleType | tickRule
  -- In imbalances.
  | refPrice | auctionTime | contBookClrPrice | auctInterestClrPrice | ssrFillingPrice
  | indMatchPrice | upperCollar | lowerCollar | pairedQty | totalImbalanceQty | marketImbalanceQty
  | unpairedQty | auctionType | auctionStatus | freezeStatus | numExtensions | unpairedSide
  | significantImbalance
  -- In statistics and in the messages of a gateway.
  | tsRef | quantity | statType | updateAction | statFlags
  | err | msg | stypeInSymbol | stypeOutSymbol | startTs | endTs
  deriving DecidableEq, Repr

/-- What the bytes of a member hold. -/
inductive MemberType
  /-- A natural number of so many bytes. -/
  | unsigned (width : Nat)
  /-- An integer of so many bytes in two's complement. -/
  | signed (width : Nat)
  /-- A character. -/
  | character
  /-- A row of so many characters. -/
  | characters (count : Nat)
  /-- So many bytes without meaning. -/
  | filler (count : Nat)
  deriving DecidableEq, Repr

/-- The number of bytes of a member. -/
def MemberType.width : MemberType → Nat
  | .unsigned width => width
  | .signed width => width
  | .character => 1
  | .characters count => count
  | .filler count => count

/-- The members of a record, or of a part of one, in the order of their bytes. -/
abbrev Members := List (Member × MemberType)

/-- Where a member lies. -/
structure MemberPlace where
  /-- The place of its first byte. -/
  start : Nat
  /-- What its bytes hold. -/
  type : MemberType
  deriving DecidableEq, Repr

namespace Members

/-- The number of bytes that the members take. -/
def width : Members → Nat
  | [] => 0
  | (_, type) :: rest => type.width + width rest

/-- Where the member with the given name lies, the first of the row being at `start`. -/
def placeFrom? (start : Nat) : Members → Member → Option MemberPlace
  | [], _ => none
  | (name, type) :: rest, member =>
    if name = member then some ⟨start, type⟩ else placeFrom? (start + type.width) rest member

/-- Where the member with the given name lies. -/
def place? (members : Members) (member : Member) : Option MemberPlace :=
  members.placeFrom? 0 member

end Members

end MarketWire
