import RoqCme.Ilink.Messages
import RoqCme.MarketData.SecurityDefinitions

/-! Order entry on one market segment (`gateway/order_entry`): the requests of clients become
iLink messages, and execution reports become order and trade updates. -/
namespace RoqCme.Gateway
open RoqCme.Ilink RoqCme.MarketData RoqCme.Tools
variable {Qp Qo : Type}

inductive OrderType where
  | undefined | market | limit
  deriving DecidableEq, Repr

inductive TimeInForce where
  | undefined | gfd | gtc | opg | ioc | fok | gtx | gtd | atTheClose | goodThroughCrossing
  | atCrossing | goodForTime | gfa | gfm
  deriving DecidableEq, Repr

inductive ExecutionInstruction where
  | undefined | participateDoNotInitiate | cancelIfNotBest | doNotIncrease | doNotReduce
  deriving DecidableEq, Repr

inductive OrderStatus where
  | undefined | accepted | working | completed | canceled | rejected | expired
  deriving DecidableEq, Repr

inductive Liquidity where
  | undefined | maker | taker
  deriving DecidableEq, Repr

inductive RequestType where
  | undefined | createOrder | modifyOrder | cancelOrder
  deriving DecidableEq, Repr

def RequestType.code : RequestType → Nat
  | .undefined => 0
  | .createOrder => 1
  | .modifyOrder => 2
  | .cancelOrder => 3

structure CreateOrder where
  exchange : String
  side : Side
  orderType : OrderType
  timeInForce : TimeInForce
  executionInstructions : List ExecutionInstruction
  quantity : Double
  price : Double
  stopPrice : Double
  deriving DecidableEq, Repr

structure ModifyOrder where
  quantity : Double
  price : Double
  deriving DecidableEq, Repr

/-- What order entry reads of `server::oms::Order`. -/
structure Order where
  symbol : String
  side : Side
  orderType : OrderType
  timeInForce : TimeInForce
  userId : Nat
  orderId : Nat
  clientOrderId : String
  deriving DecidableEq, Repr

def mapSide : Side → SideReq
  | .undefined => .null
  | .buy => .buy
  | .sell => .sell

def mapOrderType : OrderType → OrderTypeReq
  | .undefined => .null
  | .market => .marketwithProtection
  | .limit => .limit

def mapTimeInForce : TimeInForce → Ilink.TimeInForce
  | .gfd => .day
  | .gtc => .goodTillCancel
  | .ioc => .fillAndKill
  | .fok => .fillOrKill
  | .gtd => .goodTillDate
  | _ => .null

inductive Error where
  | invalidSymbol | invalidExchange | invalidExecutionInstruction
  deriving DecidableEq, Repr

/-- The ways in which a request ends early: exceptions, and `log::fatal`. -/
inductive Failure where
  | notReady
  | rejected (error : Error) (text : String)
  | runtimeError
  | safeCast
  | fatal
  deriving DecidableEq, Repr

/-- Every instruction other than the undefined one is refused. -/
def mapExecutionInstructions (instructions : List ExecutionInstruction) : Except Failure Nat :=
  if instructions.all fun item => item = .undefined then .ok 0
  else .error (.rejected .invalidExecutionInstruction "unsupported")

def encodeOrderRequestId (type : RequestType) (userId orderId : Nat) : Nat :=
  type.code <<< 56 ||| userId <<< 48 ||| orderId

/-- The code of the request type, the user id and the order id. -/
def decodeOrderRequestId (value : Nat) : Nat × Nat × Nat :=
  ((value >>> 56) % 2 ^ 8, (value >>> 48) % 2 ^ 8, value % 2 ^ 48)

/-- What order entry gets from outside. `safe_cast` of a double to int32 belongs to another
library: it is known to keep integers in range. -/
structure OrderEnv where
  safeCast : Double → Option Int
  safeCast_int : ∀ n : Int, -2 ^ 31 ≤ n → n < 2 ^ 31 → safeCast (some n) = some n
  now : Nat

theorem exactCast_int (n : Int) (h1 : -2 ^ 31 ≤ n) (h2 : n < 2 ^ 31) :
    (if (n : ℚ).den = 1 ∧ -2 ^ 31 ≤ (n : ℚ).num ∧ (n : ℚ).num < 2 ^ 31 then some (n : ℚ).num
      else none) = some n := by
  rw [Rat.num_intCast, Rat.den_intCast, if_pos ⟨rfl, h1, h2⟩]

/-- A conversion that accepts the integers of the range and nothing else. -/
def OrderEnv.exact (now : Nat) : OrderEnv where
  safeCast
    | none => none
    | some x => if x.den = 1 ∧ -2 ^ 31 ≤ x.num ∧ x.num < 2 ^ 31 then some x.num else none
  safeCast_int := exactCast_int
  now := now

/-- `get_quantity`: the result is the truncated value, not that of the cast. -/
def getQuantity (env : OrderEnv) (value : Double) : Except Failure Nat :=
  match env.safeCast value with
  | none => .error .safeCast
  | some result =>
    if 0 ≤ result then .ok (truncate (value.getD 0)).toNat else .error .runtimeError

inductive Outgoing where
  | partyDetailsDefinitionRequest (value : PartyDetailsDefinitionRequest)
  | newOrderSingle (value : NewOrderSingle)
  | orderCancelReplaceRequest (value : OrderCancelReplaceRequest)
  | orderCancelRequest (value : OrderCancelRequest)
  deriving DecidableEq, Repr

def maxSeqNum : Nat := 1000000000

/-- No service gateway: the id of the party details list stays zero. -/
def partyDetailsListReqId : Nat := 0

structure OrderEntry where
  marketSegmentId : Nat
  account : String
  firmId : String
  location : String
  ready : Bool := false
  msgSeqNum : Nat := 0
  deriving DecidableEq, Repr

/-- State, messages sent so far and, if the request ended early, why. -/
structure Step where
  entry : OrderEntry
  sent : List Outgoing := []
  failure : Option Failure := none
  deriving DecidableEq, Repr

namespace OrderEntry

def peekNextSeqNum (e : OrderEntry) : Nat := (e.msgSeqNum + 1) % maxSeqNum

def fetchNextSeqNum (e : OrderEntry) : Nat × OrderEntry :=
  (e.peekNextSeqNum, { e with msgSeqNum := e.peekNextSeqNum })

def fail (e : OrderEntry) (failure : Failure) : Step := { entry := e, failure := some failure }

def sendPartyDetailsDefinitionRequest (e : OrderEntry) : OrderEntry × Outgoing :=
  let (seqNum, e) := e.fetchNextSeqNum
  (e, .partyDetailsDefinitionRequest
    { partyDetailsListReqId := 0, seqNum := seqNum, firmId := e.firmId, account := e.account })

/-- Without a party details list its definition goes out first; then comes the message, which
is given its sequence number. -/
def sendOrder (e : OrderEntry) (message : Nat → Outgoing) : Step :=
  let (e, first) :=
    if partyDetailsListReqId = 0 then
      let (e, request) := e.sendPartyDetailsDefinitionRequest
      (e, [request])
    else (e, [])
  let (seqNum, e) := e.fetchNextSeqNum
  { entry := e, sent := first ++ [message seqNum] }

def noMapping (e : OrderEntry) (symbol : String) : Failure :=
  .rejected .invalidSymbol ("No mapping for market_segment_id=" ++ toString e.marketSegmentId ++
    " and symbol=\"" ++ symbol ++ "\"")

def sendNewOrderSingle (env : OrderEnv) (sd : SecurityDefinitions Qp Qo) (e : OrderEntry)
    (createOrder : CreateOrder) (order : Order) (requestId : String) : Step :=
  match sd.findSecurityId e.marketSegmentId order.symbol with
  | none => e.fail (e.noMapping order.symbol)
  | some securityId =>
    match sd.getSecurity securityId with
    | none => e.fail .fatal
    | some security =>
      if createOrder.exchange ≠ security.exchange then
        e.fail (.rejected .invalidExchange ("Expected: " ++ security.exchange))
      else
        match getQuantity env createOrder.quantity with
        | .error failure => e.fail failure
        | .ok orderQty =>
          match mapExecutionInstructions createOrder.executionInstructions with
          | .error failure => e.fail failure
          | .ok execInst =>
            e.sendOrder fun seqNum => .newOrderSingle
              { price := createOrder.price, orderQty := orderQty, securityId := securityId
                side := mapSide createOrder.side, seqNum := seqNum, senderId := e.account
                clOrdId := requestId, partyDetailsListReqId := partyDetailsListReqId
                orderRequestId := encodeOrderRequestId .createOrder order.userId order.orderId
                sendingTimeEpoch := env.now, stopPx := createOrder.stopPrice
                location := e.location, ordType := mapOrderType createOrder.orderType
                timeInForce := mapTimeInForce createOrder.timeInForce, execInst := execInst }

/-- The security itself is not looked up here, and a stop price is not sent. -/
def sendOrderCancelReplaceRequest (env : OrderEnv) (sd : SecurityDefinitions Qp Qo)
    (e : OrderEntry) (modifyOrder : ModifyOrder) (order : Order) : Step :=
  match sd.findSecurityId e.marketSegmentId order.symbol with
  | none => e.fail (e.noMapping order.symbol)
  | some securityId =>
    match getQuantity env modifyOrder.quantity with
    | .error failure => e.fail failure
    | .ok orderQty =>
      e.sendOrder fun seqNum => .orderCancelReplaceRequest
        { price := modifyOrder.price, orderQty := orderQty, securityId := securityId
          side := mapSide order.side, seqNum := seqNum, senderId := e.account
          clOrdId := order.clientOrderId, partyDetailsListReqId := partyDetailsListReqId
          stopPx := none
          orderRequestId := encodeOrderRequestId .modifyOrder order.userId order.orderId
          sendingTimeEpoch := env.now, location := e.location
          ordType := mapOrderType order.orderType, timeInForce := mapTimeInForce order.timeInForce }

def sendOrderCancelRequest (env : OrderEnv) (sd : SecurityDefinitions Qp Qo) (e : OrderEntry)
    (order : Order) : Step :=
  match sd.findSecurityId e.marketSegmentId order.symbol with
  | none => e.fail (e.noMapping order.symbol)
  | some securityId =>
    e.sendOrder fun seqNum => .orderCancelRequest
      { partyDetailsListReqId := partyDetailsListReqId, seqNum := seqNum, senderId := e.account
        clOrdId := order.clientOrderId
        orderRequestId := encodeOrderRequestId .cancelOrder order.userId order.orderId
        sendingTimeEpoch := env.now, location := e.location, securityId := securityId
        side := mapSide order.side }

/-- The events of `server::OrderActionStream` -/
inductive Request where
  | create (createOrder : CreateOrder) (order : Order) (requestId : String)
  | modify (modifyOrder : ModifyOrder) (order : Order)
  | cancel (order : Order)
  deriving DecidableEq, Repr

def Request.type : Request → RequestType
  | .create _ _ _ => .createOrder
  | .modify _ _ => .modifyOrder
  | .cancel _ => .cancelOrder

def Request.order : Request → Order
  | .create _ order _ => order
  | .modify _ order => order
  | .cancel order => order

/-- The id that the message of a request carries. -/
def Request.orderRequestId (request : Request) : Nat :=
  encodeOrderRequestId request.type request.order.userId request.order.orderId

def onRequest (env : OrderEnv) (sd : SecurityDefinitions Qp Qo) (e : OrderEntry)
    (request : Request) : Step :=
  if e.ready then
    match request with
    | .create createOrder order requestId => e.sendNewOrderSingle env sd createOrder order requestId
    | .modify modifyOrder order => e.sendOrderCancelReplaceRequest env sd modifyOrder order
    | .cancel order => e.sendOrderCancelRequest env sd order
  else e.fail .notReady

end OrderEntry

def mapSideReq : SideReq → Side
  | .buy => .buy
  | .sell => .sell
  | _ => .undefined

def mapOrderTypeReq : OrderTypeReq → OrderType
  | .marketwithProtection => .market
  | .limit => .limit
  | .stopLimit => .limit
  | .marketWithLeftoverAsLimit => .market
  | .null => .undefined

def mapIlinkTimeInForce : Ilink.TimeInForce → TimeInForce
  | .day => .gfd
  | .goodTillCancel => .gtc
  | .fillAndKill => .ioc
  | .fillOrKill => .fok
  | .goodTillDate => .gtd
  | _ => .undefined

def mapOrderStatus : Ilink.OrderStatus → OrderStatus
  | .new | .partiallyFilled | .replaced | .pendingCancel => .working
  | .filled => .completed
  | .cancelled => .canceled
  | .rejected => .rejected
  | .expired => .expired
  | .pendingReplace => .accepted
  | _ => .undefined

def getAggressorIndicator : Option Bool → Liquidity
  | some false => .maker
  | some true => .taker
  | none => .undefined

/-- `server::oms::OrderUpdate`, as far as an execution report fills it in. -/
structure OrderUpdate where
  account : String
  exchange : String
  symbol : String
  side : Side
  orderType : OrderType
  timeInForce : TimeInForce
  createTimeUtc : Nat
  updateTimeUtc : Nat
  externalOrderId : String
  clientOrderId : String
  orderStatus : OrderStatus
  quantity : Nat
  price : Double
  stopPrice : Double
  remainingQuantity : Option Nat
  tradedQuantity : Option Nat
  lastTradedQuantity : Option Nat
  lastTradedPrice : Double
  lastLiquidity : Liquidity
  updateType : UpdateType
  deriving DecidableEq, Repr

structure Fill where
  externalTradeId : String
  quantity : Nat
  price : Double
  liquidity : Liquidity
  deriving DecidableEq, Repr

/-- `order_update_from_execution_report` -/
def orderUpdateFromExecutionReport (value : ExecutionReport) (security : Security Qp Qo)
    (externalOrderId : String) : OrderUpdate :=
  { account := value.senderID, exchange := security.exchange, symbol := security.symbol
    side := mapSideReq value.side, orderType := mapOrderTypeReq value.ordType
    timeInForce := mapIlinkTimeInForce value.timeInForce
    createTimeUtc := value.transactTime.getD 0, updateTimeUtc := value.transactTime.getD 0
    externalOrderId := externalOrderId, clientOrderId := value.clOrdID
    orderStatus := mapOrderStatus value.ordStatus, quantity := value.orderQty
    price := getDouble value.price, stopPrice := getDouble value.stopPx
    remainingQuantity := value.leavesQty, tradedQuantity := value.cumQty
    lastTradedQuantity := value.lastQty, lastTradedPrice := getDouble value.lastPx
    lastLiquidity := getAggressorIndicator value.aggressorIndicator
    updateType := if value.template = .status532 then .snapshot else .incremental }

def fillFromReport (value : ExecutionReport) (item : ReportFill) : Fill :=
  { externalTradeId := value.execID ++ item.fillExecID, quantity := item.fillQty
    price := getDouble (some item.fillPx)
    liquidity := getAggressorIndicator value.aggressorIndicator }

/-- An accepted `server::oms::Response` -/
structure Response where
  requestType : Nat
  externalOrderId : String
  clientOrderId : String
  quantity : Nat
  price : Double
  deriving DecidableEq, Repr

structure TradeUpdate where
  exchange : String
  symbol : String
  side : Side
  createTimeUtc : Nat
  updateTimeUtc : Nat
  externalOrderId : String
  clientOrderId : String
  fills : List Fill
  deriving DecidableEq, Repr

inductive Dispatched where
  | response (value : Response) (userId orderId : Nat)
  | responseWithUpdate (value : Response) (update : OrderUpdate)
  | orderUpdate (value : OrderUpdate)
  | tradeUpdate (value : TradeUpdate)
  deriving DecidableEq, Repr

def OrderUpdate.response (update : OrderUpdate) (requestType : Nat) : Response :=
  { requestType := requestType, externalOrderId := update.externalOrderId
    clientOrderId := update.clientOrderId, quantity := update.quantity, price := update.price }

def tradeUpdateFromReport (value : ExecutionReport) (update : OrderUpdate) : TradeUpdate :=
  { exchange := update.exchange, symbol := update.symbol, side := update.side
    createTimeUtc := update.createTimeUtc, updateTimeUtc := update.updateTimeUtc
    externalOrderId := update.externalOrderId, clientOrderId := update.clientOrderId
    fills := value.noFills.map (fillFromReport value) }

/-- The handlers of the execution reports: reports without an order id or for an unknown
security are only logged. -/
def onExecutionReport (sd : SecurityDefinitions Qp Qo) (value : ExecutionReport) :
    List Dispatched :=
  let orderId := value.orderID.getD 0
  if orderId = 0 then []
  else
    match sd.getSecurity (value.securityID.getD 0) with
    | none => []
    | some security =>
      let update := orderUpdateFromExecutionReport value security (toString orderId)
      let (type, userId, orderId) := decodeOrderRequestId value.orderRequestID
      match value.template with
      | .new522 => [.response (update.response type) userId orderId]
      | .modify531 => [.responseWithUpdate (update.response type) update]
      | .cancel534 => [.responseWithUpdate (update.response RequestType.cancelOrder.code) update]
      | .status532 => [.orderUpdate update]
      | .tradeOutright525 =>
        .orderUpdate update ::
          if value.noFills = [] then [] else [.tradeUpdate (tradeUpdateFromReport value update)]

end RoqCme.Gateway
