import RoqCme.Api

/-! Decoded market-data messages and the conversions of `protocol/mdp/map`. A message is
its fields and repeating groups; a field that has a null value and is only ever read through
`get_int` or `map` is an `Option`. Prices are mantissas with the constant exponent -9. -/
namespace RoqCme.Mdp

inductive MDEntryTypeBook where
  | bid | offer | impliedBid | impliedOffer | bookReset | marketBestOffer | marketBestBid | null
  deriving DecidableEq, Repr

inductive MDUpdateAction where
  | new | change | delete | deleteThru | deleteFrom | overlay | null
  deriving DecidableEq, Repr

inductive OrderUpdateAction where
  | new | update | delete | null
  deriving DecidableEq, Repr

inductive AggressorSide where
  | noAggressor | buy | sell | null
  deriving DecidableEq, Repr

inductive MDEntryTypeDailyStatistics where
  | settlementPrice | clearedVolume | openInterest | fixingPrice | null
  deriving DecidableEq, Repr

inductive MDEntryTypeStatistics where
  | openPrice | highTrade | lowTrade | vwap | highestBid | lowestOffer | null
  deriving DecidableEq, Repr

inductive SecurityTradingStatus where
  | tradingHalt | close | newPriceIndication | readyToTrade | notAvailableForTrading
  | unknownorInvalid | preOpen | preCross | cross | postClose | noChange | privateWorkup
  | publicWorkup | null
  deriving DecidableEq, Repr

inductive MDEntryType where
  | bid | offer | trade | openPrice | settlementPrice | tradingSessionHighPrice
  | tradingSessionLowPrice | vwap | clearedVolume | openInterest | impliedBid | impliedOffer
  | bookReset | sessionHighBid | sessionLowOffer | fixingPrice | electronicVolume
  | thresholdLimitsandPriceBandVariation | marketBestOffer | marketBestBid | null
  deriving DecidableEq, Repr

def MDEntryTypeBook.map : MDEntryTypeBook → Side
  | .bid => .buy
  | .offer => .sell
  | _ => .undefined

def MDUpdateAction.map : MDUpdateAction → UpdateAction
  | .new => .new
  | .change => .change
  | .delete => .delete
  | _ => .undefined

def OrderUpdateAction.map : OrderUpdateAction → UpdateAction
  | .new => .new
  | .update => .change
  | .delete => .delete
  | .null => .undefined

def AggressorSide.map : AggressorSide → Side
  | .buy => .buy
  | .sell => .sell
  | _ => .undefined

def MDEntryTypeDailyStatistics.map : MDEntryTypeDailyStatistics → StatisticsType
  | .settlementPrice => .settlementPrice
  | .openInterest => .openInterest
  | .fixingPrice => .closePrice
  | _ => .undefined

def MDEntryTypeStatistics.map : MDEntryTypeStatistics → StatisticsType
  | .openPrice => .openPrice
  | .highTrade => .highestTradedPrice
  | .lowTrade => .lowestTradedPrice
  | _ => .undefined

def SecurityTradingStatus.map : SecurityTradingStatus → TradingStatus
  | .tradingHalt => .halt
  | .close => .close
  | .readyToTrade => .opened
  | .notAvailableForTrading => .close
  | .preOpen => .preOpen
  | .postClose => .postClose
  | .noChange => .startOfDay
  | _ => .undefined

/-- `map` of a `PRICE9` or `Decimal9` -/
def price9 (mantissa : Int) : Double := some ((mantissa : ℚ) / 1000000000)

/-- `map` of a `PRICENULL9`: the null mantissa is NaN. -/
def priceNull9 (mantissa : Option Int) : Double := mantissa.bind price9

def getInt {α : Type*} [Zero α] (value : Option α) : α := value.getD 0

structure Book46.Entry where
  mDEntryPx : Option Int
  mDEntrySize : Option Int
  securityID : Int
  rptSeq : Nat
  numberOfOrders : Option Int
  mDPriceLevel : Option Nat
  mDUpdateAction : MDUpdateAction
  mDEntryType : MDEntryTypeBook
  deriving DecidableEq, Repr

structure Book46.OrderEntry where
  orderID : Option Nat
  mDOrderPriority : Option Nat
  mDDisplayQty : Option Int
  referenceID : Option Nat
  orderUpdateAction : OrderUpdateAction
  deriving DecidableEq, Repr

structure Book46 where
  transactTime : Nat
  noMDEntries : List Book46.Entry
  noOrderIDEntries : List Book46.OrderEntry
  deriving DecidableEq, Repr

structure OrderBook47.Entry where
  orderID : Option Nat
  mDOrderPriority : Option Nat
  mDEntryPx : Option Int
  mDDisplayQty : Option Int
  securityID : Int
  mDUpdateAction : MDUpdateAction
  mDEntryType : MDEntryTypeBook
  deriving DecidableEq, Repr

/-- `matchEventIndicator` is the raw bit set, empty when 0. -/
structure OrderBook47 where
  transactTime : Nat
  matchEventIndicator : Nat
  noMDEntries : List OrderBook47.Entry
  deriving DecidableEq, Repr

/-- Templates 48 and 65 differ in the width of `mDEntrySize` and `lastQty` only. -/
structure TradeSummary.Entry where
  mDEntryPx : Int
  mDEntrySize : Int
  securityID : Int
  rptSeq : Nat
  numberOfOrders : Int
  mDTradeEntryID : Option Nat
  aggressorSide : AggressorSide
  deriving DecidableEq, Repr

structure TradeSummary.OrderEntry where
  orderID : Nat
  lastQty : Int
  deriving DecidableEq, Repr

structure TradeSummary where
  transactTime : Nat
  noMDEntries : List TradeSummary.Entry
  noOrderIDEntries : List TradeSummary.OrderEntry
  deriving DecidableEq, Repr

/-- An entry of templates 49, 51, 67 and, with `τ = Unit` and no price, 37. -/
structure StatisticsEntry (τ : Type) where
  mDEntryPx : Int
  mDEntrySize : Option Int
  securityID : Int
  rptSeq : Nat
  mDEntryType : τ
  deriving DecidableEq, Repr

structure StatisticsMessage (τ : Type) where
  transactTime : Nat
  noMDEntries : List (StatisticsEntry τ)
  deriving DecidableEq, Repr

/-- What the handlers of templates 64, 66 and 50 read of an entry. -/
structure ReportEntry where
  securityID : Int
  rptSeq : Nat
  deriving DecidableEq, Repr

structure SecurityStatus30 where
  transactTime : Nat
  securityGroup : String
  securityID : Option Int
  securityTradingStatus : SecurityTradingStatus
  deriving DecidableEq, Repr

inductive InstrumentKind where
  | future54 | option55 | spread56 | fixedIncome57 | repo58 | fx63
  deriving DecidableEq, Repr

structure InstrumentDefinition where
  kind : InstrumentKind
  securityID : Int
  marketSegmentID : Nat
  securityExchange : String
  symbol : String
  securityGroup : String
  displayFactor : Int
  minPriceIncrement : Option Int
  currency : String
  settlCurrency : String
  strikeCurrency : String
  contractMultiplier : Option Int
  minTradeVol : Nat
  maxTradeVol : Nat
  mDSecurityTradingStatus : SecurityTradingStatus
  deriving DecidableEq, Repr

structure Snapshot52.Entry where
  mDEntryPx : Option Int
  mDEntrySize : Option Int
  numberOfOrders : Option Int
  mDPriceLevel : Option Nat
  mDEntryType : MDEntryType
  deriving DecidableEq, Repr

/-- Templates 52 and 69. -/
structure Snapshot52 where
  lastMsgSeqNumProcessed : Nat
  securityID : Int
  transactTime : Nat
  noMDEntries : List Snapshot52.Entry
  deriving DecidableEq, Repr

structure Snapshot53.Entry where
  orderID : Option Nat
  mDOrderPriority : Option Nat
  mDEntryPx : Int
  mDDisplayQty : Int
  mDEntryType : MDEntryTypeBook
  deriving DecidableEq, Repr

structure Snapshot53 where
  lastMsgSeqNumProcessed : Nat
  noChunks : Nat
  currentChunk : Nat
  securityID : Int
  noMDEntries : List Snapshot53.Entry
  deriving DecidableEq, Repr

inductive Message where
  | adminHeartbeat12
  | channelReset4
  | securityStatus30 (value : SecurityStatus30)
  | instrumentDefinition (value : InstrumentDefinition)
  | snapshotFullRefresh52 (value : Snapshot52)
  | snapshotFullRefreshLongQty69 (value : Snapshot52)
  | book46 (value : Book46)
  | bookLongQty64 (noMDEntries : List ReportEntry)
  | snapshotFullRefreshOrderBook53 (value : Snapshot53)
  | orderBook47 (value : OrderBook47)
  | tradeSummary48 (value : TradeSummary)
  | tradeSummaryLongQty65 (value : TradeSummary)
  | dailyStatistics49 (value : StatisticsMessage MDEntryTypeDailyStatistics)
  | sessionStatistics51 (value : StatisticsMessage MDEntryTypeStatistics)
  | sessionStatisticsLongQty67 (value : StatisticsMessage MDEntryTypeStatistics)
  | volume37 (value : StatisticsMessage Unit)
  | volumeLongQty66 (noMDEntries : List ReportEntry)
  | limitsBanding50 (noMDEntries : List ReportEntry)
  | quoteRequest39
  deriving DecidableEq, Repr

end RoqCme.Mdp
