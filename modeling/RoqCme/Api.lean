import Mathlib.Algebra.Ring.Nat
import Mathlib.Algebra.Ring.Rat

/-! The values published by the gateway (`roq/api`), as far as its handlers fill them in.
Fields that every handler leaves at their default are not repeated here. -/
namespace RoqCme

/-- A double, computed exactly; `none` is NaN. -/
abbrev Double := Option ℚ

def Double.mul : Double → Double → Double
  | some x, some y => some (x * y)
  | _, _ => none

/-- uint32 arithmetic. -/
def u32 (n : Nat) : Nat := n % 2 ^ 32

inductive Side where
  | undefined | buy | sell
  deriving DecidableEq, Repr

/-- `utils::invert` -/
def Side.invert : Side → Side
  | .undefined => .undefined
  | .buy => .sell
  | .sell => .buy

inductive UpdateAction where
  | undefined | new | change | delete | trade
  deriving DecidableEq, Repr

inductive UpdateType where
  | undefined | snapshot | incremental | stale
  deriving DecidableEq, Repr

inductive StatisticsType where
  | undefined | openPrice | settlementPrice | closePrice | openInterest
  | highestTradedPrice | lowestTradedPrice | tradeVolume
  deriving DecidableEq, Repr

inductive TradingStatus where
  | undefined | startOfDay | preOpen | opened | halt | close | postClose
  deriving DecidableEq, Repr

inductive SecurityType where
  | futures | option
  deriving DecidableEq, Repr

structure MBPUpdate where
  price : Double
  quantity : Int
  numberOfOrders : Int
  updateAction : UpdateAction
  priceLevel : Nat
  deriving DecidableEq, Repr

/-- An order id is the decimal text of a number; `none` is the empty text. -/
structure MBOUpdate where
  price : Double
  quantity : Int
  priority : Nat
  orderId : Option Nat
  side : Side
  action : UpdateAction
  deriving DecidableEq, Repr

structure Layer where
  bidPrice : Double := none
  askPrice : Double := none
  deriving DecidableEq, Repr

structure Trade where
  side : Side
  price : Double
  quantity : Int
  tradeId : Nat
  takerOrderId : Option Nat
  makerOrderId : Option Nat
  deriving DecidableEq, Repr

structure Statistics where
  type : StatisticsType
  value : Double
  deriving DecidableEq, Repr

/-- The fields that all updates share. -/
structure Header where
  streamId : Nat
  exchange : String
  symbol : String
  exchangeTimeUtc : Nat
  exchangeSequence : Nat
  sendingTimeUtc : Nat
  deriving DecidableEq, Repr

structure ReferenceData where
  streamId : Nat
  exchange : String
  symbol : String
  securityType : SecurityType
  externalSecurityId : Int
  quoteCurrency : String
  settlementCurrency : String
  tickSize : Double
  multiplier : Double
  minTradeVol : Nat
  maxTradeVol : Nat
  strikeCurrency : String
  discard : Bool
  deriving DecidableEq, Repr

inductive Published where
  | referenceData (value : ReferenceData)
  | marketStatus (header : Header) (tradingStatus : TradingStatus)
  | topOfBook (header : Header) (layer : Layer) (updateType : UpdateType)
  | marketByPrice (header : Header) (bids asks : List MBPUpdate) (updateType : UpdateType)
  | marketByOrder (header : Header) (orders : List MBOUpdate) (updateType : UpdateType)
  | tradeSummary (header : Header) (trades : List Trade)
  | statistics (header : Header) (statistics : List Statistics) (updateType : UpdateType)
  deriving DecidableEq, Repr

end RoqCme
