import MarketWire.Record.Catalog
import MarketWire.Record.Field

/-!
# Visits of records

What is shown of each type of record, and in which order. The lists are those of the text encoders:
the names of a header row and the values of the rows below it come from the same visits, so there are
as many of the one as of the other.

## Main definitions

* `Visit.header`, `RecordType.visits`, `Visit.bookLevel` — the visits of a header, of the body behind
  it, and of each book level at the end.
* `RecordType.fieldNames` — the names of all fields.
-/

namespace MarketWire

namespace Visit

/-- The header. The length is not shown. -/
def header : List Visit :=
  [.number "rtype" .rtype, .number "publisher_id" .publisherId,
    .number "product_id" .productId, .timestamp "ts_event" .tsEvent]

/-- What trades and book changes have in common. -/
def marketByPrice : List Visit :=
  [.price "price" .price, .number "size" .size, .character "action" .action,
    .character "side" .side, .number "flags" .flags, .number "depth" .depth,
    .timestamp "ts_recv" .tsRecv, .number "ts_in_delta" .tsInDelta,
    .number "sequence" .sequence]

/-- The name of a field of the book level with the given number, which has two digits. -/
def levelName (name : String) (level : Nat) : Text :=
  Text.ofAscii name ++ 0x5F :: Text.paddedDecimal 2 level

/-- One level of an order book. -/
def bookLevel (level : Nat) : List Visit :=
  [⟨levelName "bid_px" level, .bidPx, .price⟩, ⟨levelName "ask_px" level, .askPx, .price⟩,
    ⟨levelName "bid_sz" level, .bidSz, .number⟩, ⟨levelName "ask_sz" level, .askSz, .number⟩,
    ⟨levelName "bid_ct" level, .bidCt, .number⟩, ⟨levelName "ask_ct" level, .askCt, .number⟩]

end Visit

namespace RecordType

/-- What is shown between the header and the book levels. -/
def visits : RecordType → List Visit
  | .mbo =>
    [.number "order_id" .orderId, .price "price" .price, .number "size" .size,
      .number "flags" .flags, .number "channel_id" .channelId, .character "action" .action,
      .character "side" .side, .timestamp "ts_recv" .tsRecv, .number "ts_in_delta" .tsInDelta,
      .number "sequence" .sequence]
  | .trade => Visit.marketByPrice
  | .mbp1 => Visit.marketByPrice
  | .mbp10 => Visit.marketByPrice
  | .ohlcv =>
    [.price "open" .openPrice, .price "high" .highPrice, .price "low" .lowPrice,
      .price "close" .closePrice, .number "volume" .volume]
  | .status =>
    [.timestamp "ts_recv" .tsRecv, .text "group" .group, .number "trading_status" .tradingStatus,
      .number "halt_reason" .haltReason, .number "trading_event" .tradingEvent]
  | .instrumentDef =>
    [.timestamp "ts_recv" .tsRecv, .price "min_price_increment" .minPriceIncrement,
      .number "display_factor" .displayFactor, .timestamp "expiration" .expiration,
      .timestamp "activation" .activation, .price "high_limit_price" .highLimitPrice,
      .price "low_limit_price" .lowLimitPrice, .price "max_price_variation" .maxPriceVariation,
      .price "trading_reference_price" .tradingReferencePrice,
      .number "unit_of_measure_qty" .unitOfMeasureQty,
      .price "min_price_increment_amount" .minPriceIncrementAmount,
      .price "price_ratio" .priceRatio, .number "inst_attrib_value" .instAttribValue,
      .number "underlying_id" .underlyingId, .number "cleared_volume" .clearedVolume,
      .number "market_depth_implied" .marketDepthImplied, .number "market_depth" .marketDepth,
      .number "market_segment_id" .marketSegmentId, .number "max_trade_vol" .maxTradeVol,
      .number "min_lot_size" .minLotSize, .number "min_lot_size_block" .minLotSizeBlock,
      .number "min_lot_size_round_lot" .minLotSizeRoundLot, .number "min_trade_vol" .minTradeVol,
      .number "open_interest_qty" .openInterestQty,
      .number "contract_multiplier" .contractMultiplier, .number "decay_quantity" .decayQuantity,
      .number "original_contract_size" .originalContractSize,
      .number "related_security_id" .relatedSecurityId,
      .number "trading_reference_date" .tradingReferenceDate, .number "appl_id" .applId,
      .number "maturity_year" .maturityYear, .number "decay_start_date" .decayStartDate,
      .number "channel_id" .channelId, .text "currency" .currency,
      .text "settl_currency" .settlCurrency, .text "secsubtype" .secsubtype,
      .text "symbol" .symbol, .text "group" .group, .text "exchange" .exchange,
      .text "asset" .asset, .text "cfi" .cfi, .text "security_type" .securityType,
      .text "unit_of_measure" .unitOfMeasure, .text "underlying" .underlying,
      .text "related" .related, .character "match_algorithm" .matchAlgorithm,
      .number "md_security_trading_status" .mdSecurityTradingStatus,
      .number "main_fraction" .mainFraction, .number "price_display_format" .priceDisplayFormat,
      .number "settl_price_type" .settlPriceType, .number "sub_fraction" .subFraction,
      .number "underlying_product" .underlyingProduct,
      .character "security_update_action" .securityUpdateAction,
      .number "maturity_month" .maturityMonth, .number "maturity_day" .maturityDay,
      .number "maturity_week" .maturityWeek,
      .character "user_defined_instrument" .userDefinedInstrument,
      .number "contract_multiplier_unit" .contractMultiplierUnit,
      .number "flow_schedule_type" .flowScheduleType, .number "tick_rule" .tickRule]
  | .imbalance =>
    [.timestamp "ts_recv" .tsRecv, .price "ref_price" .refPrice,
      .timestamp "auction_time" .auctionTime, .price "cont_book_clr_price" .contBookClrPrice,
      .price "auct_interest_clr_price" .auctInterestClrPrice,
      .price "ssr_filling_price" .ssrFillingPrice, .price "ind_match_price" .indMatchPrice,
      .price "upper_collar" .upperCollar, .price "lower_collar" .lowerCollar,
      .number "paired_qty" .pairedQty, .number "total_imbalance_qty" .totalImbalanceQty,
      .number "market_imbalance_qty" .marketImbalanceQty, .number "unpaired_qty" .unpairedQty,
      .character "auction_type" .auctionType, .character "side" .side,
      .number "auction_status" .auctionStatus, .number "freeze_status" .freezeStatus,
      .number "num_extensions" .numExtensions, .character "unpaired_side" .unpairedSide,
      .character "significant_imbalance" .significantImbalance]
  | .stat =>
    [.timestamp "ts_recv" .tsRecv, .timestamp "ts_ref" .tsRef, .price "price" .price,
      .number "quantity" .quantity, .number "sequence" .sequence,
      .number "ts_in_delta" .tsInDelta, .number "stat_type" .statType,
      .number "channel_id" .channelId, .number "update_action" .updateAction,
      .number "stat_flags" .statFlags]
  | .error => [.text "err" .err]
  | .symbolMapping =>
    [.text "stype_in_symbol" .stypeInSymbol, .text "stype_out_symbol" .stypeOutSymbol,
      .timestamp "start_ts" .startTs, .timestamp "end_ts" .endTs]
  | .system => [.text "msg" .msg]

/-- The names of all fields, the book levels included. -/
def fieldNames (t : RecordType) : List Text :=
  (Visit.header ++ t.visits ++ (List.range t.depth).flatMap Visit.bookLevel).map Visit.name

end RecordType

end MarketWire
