import RoqCme.Api
import Mathlib.Data.Rat.Floor

/-! The iLink messages of order entry (`protocol/ilink`). Prices are mantissas with the constant
exponent -9. Fields that every sender fills with the same constant are not repeated here. -/
namespace RoqCme.Ilink

inductive SideReq where
  | buy | sell | undisclosed | null
  deriving DecidableEq, Repr

/-- `OrderTypeReq` of requests and `OrderType` of reports. -/
inductive OrderTypeReq where
  | marketwithProtection | limit | stopLimit | marketWithLeftoverAsLimit | null
  deriving DecidableEq, Repr

inductive TimeInForce where
  | day | goodTillCancel | fillAndKill | fillOrKill | goodTillDate | goodForSession | null
  deriving DecidableEq, Repr

/-- `OrderStatus` together with `OrdStatusTrd`, whose values it contains. -/
inductive OrderStatus where
  | new | partiallyFilled | filled | cancelled | replaced | pendingCancel | rejected | expired
  | pendingReplace | undefined | null
  deriving DecidableEq, Repr

/-- The mantissa that stands for no price. -/
def mantissaNullValue : Int := 2 ^ 63 - 1

/-- `static_cast` of a double to an integer drops the fraction. -/
def truncate (x : ℚ) : Int := if x < 0 then -⌊-x⌋ else ⌊x⌋

/-- `set_price`: the encoders of orders and of quotes share the text of this function. A value
beyond int64 has no defined outcome in the source; here it stays as it is. -/
def setPrice : Double → Int
  | none => mantissaNullValue
  | some value => truncate (value * 1000000000 + 1 / 2)

/-- `get_double` of a price field; a null mantissa is NaN. -/
def getDouble : Option Int → Double
  | none => none
  | some mantissa => some ((mantissa : ℚ) / 1000000000)

structure PartyDetailsDefinitionRequest where
  partyDetailsListReqId : Nat
  seqNum : Nat
  firmId : String
  account : String
  deriving DecidableEq, Repr

structure NewOrderSingle where
  price : Double
  orderQty : Nat
  securityId : Int
  side : SideReq
  seqNum : Nat
  senderId : String
  clOrdId : String
  partyDetailsListReqId : Nat
  orderRequestId : Nat
  sendingTimeEpoch : Nat
  stopPx : Double
  location : String
  ordType : OrderTypeReq
  timeInForce : TimeInForce
  execInst : Nat
  deriving DecidableEq, Repr

structure OrderCancelReplaceRequest where
  price : Double
  orderQty : Nat
  securityId : Int
  side : SideReq
  seqNum : Nat
  senderId : String
  clOrdId : String
  partyDetailsListReqId : Nat
  stopPx : Double
  orderRequestId : Nat
  sendingTimeEpoch : Nat
  location : String
  ordType : OrderTypeReq
  timeInForce : TimeInForce
  deriving DecidableEq, Repr

structure OrderCancelRequest where
  partyDetailsListReqId : Nat
  seqNum : Nat
  senderId : String
  clOrdId : String
  orderRequestId : Nat
  sendingTimeEpoch : Nat
  location : String
  securityId : Int
  side : SideReq
  deriving DecidableEq, Repr

/-- The price fields of an encoded order; the others are copied as they are. -/
structure EncodedPrices where
  price : Int
  stopPx : Int
  deriving DecidableEq, Repr

def NewOrderSingle.encode (value : NewOrderSingle) : EncodedPrices :=
  { price := setPrice value.price, stopPx := setPrice value.stopPx }

def OrderCancelReplaceRequest.encode (value : OrderCancelReplaceRequest) : EncodedPrices :=
  { price := setPrice value.price, stopPx := setPrice value.stopPx }

/-- One quote of a `MassQuote`. -/
structure QuoteEntry where
  bidPx : Double
  offerPx : Double
  quoteEntryId : Nat
  securityId : Int
  bidSize : Nat
  offerSize : Nat
  underlyingSecurityId : Int
  quoteSetId : Nat
  deriving DecidableEq, Repr

structure MassQuote where
  partyDetailsListReqId : Nat
  sendingTimeEpoch : Nat
  seqNum : Nat
  senderId : String
  quoteReqId : Nat
  location : String
  quoteId : Nat
  totNoQuoteEntries : Nat
  mmpProtectionReset : Bool
  liquidityFlag : Bool
  quoteEntryOpen : Bool
  noQuoteEntries : List QuoteEntry
  deriving DecidableEq, Repr

/-- The price fields of an encoded quote. -/
structure EncodedQuote where
  bidPx : Int
  offerPx : Int
  deriving DecidableEq, Repr

def MassQuote.encode (value : MassQuote) : List EncodedQuote :=
  value.noQuoteEntries.map fun item =>
    { bidPx := setPrice item.bidPx, offerPx := setPrice item.offerPx }

inductive ReportTemplate where
  | new522 | tradeOutright525 | modify531 | status532 | cancel534
  deriving DecidableEq, Repr

structure ReportFill where
  fillPx : Int
  fillQty : Nat
  fillExecID : String
  deriving DecidableEq, Repr

/-- The execution reports that the gateway handles. A field that a template lacks, or that has
its null value, is `none`. -/
structure ExecutionReport where
  template : ReportTemplate
  orderID : Option Nat
  securityID : Option Int
  orderRequestID : Nat
  senderID : String
  clOrdID : String
  execID : String
  side : SideReq
  ordType : OrderTypeReq
  timeInForce : TimeInForce
  transactTime : Option Nat
  ordStatus : OrderStatus
  orderQty : Nat
  price : Option Int
  stopPx : Option Int
  leavesQty : Option Nat
  cumQty : Option Nat
  lastQty : Option Nat
  lastPx : Option Int
  aggressorIndicator : Option Bool
  noFills : List ReportFill
  deriving DecidableEq, Repr

end RoqCme.Ilink
