import RoqCme.Gateway.OrderEntry
import RoqCme.Lib.Command

/-! The iLink session of order entry (`gateway/order_entry`): negotiation, download of orders,
requests and keep-alive over one connection after another. A message takes its sequence number,
is encoded and then handed to the connection; only the connection decides whether it leaves. -/
namespace RoqCme.Gateway
open RoqCme.Ilink RoqCme.MarketData RoqCme.Lib
variable {Qp Qo D : Type}

inductive ConnectionStatus where
  | undefined | disconnected | loginSent | downloading | ready
  deriving DecidableEq, Repr

/-- `OrderEntry::State`, the stages of the download. -/
inductive State where
  | undefined | orders | done
  deriving DecidableEq, Repr

/-- `core::Download2` belongs to another library. An operation gives its next state and the stages
for which it calls back, in order. -/
structure Download2 (D : Type) where
  init : D
  begin : D → D × List State
  checkRelaxed : D → State → D × List State
  reset : D → D

/-- `tools::CanonicalMessage`, which the signatures of `Negotiate` and `Establish` cover. The
interval is in milliseconds. -/
structure CanonicalMessage where
  requestTimestamp : Nat
  uuid : Nat
  session : String
  firmId : String
  tradingSystemName : String := ""
  tradingSystemVersion : String := ""
  tradingSystemVendor : String := ""
  nextSeqNo : Nat := 0
  keepAliveInterval : Nat := 0
  deriving DecidableEq, Repr

structure OrderMassStatusRequest where
  partyDetailsListReqId : Nat
  massStatusReqId : Nat
  seqNum : Nat
  senderId : String
  sendingTimeEpoch : Nat
  location : String
  marketSegmentId : Nat
  deriving DecidableEq, Repr

structure OrderMassActionRequest where
  partyDetailsListReqId : Nat
  orderRequestId : Nat
  seqNum : Nat
  senderId : String
  sendingTimeEpoch : Nat
  location : String
  marketSegmentId : Nat
  deriving DecidableEq, Repr

/-- The messages that a session sends. -/
inductive Sent where
  | negotiate (value : CanonicalMessage)
  | establish (value : CanonicalMessage)
  | sequence (uuid nextSeqNo : Nat)
  | order (value : Outgoing)
  | orderMassStatusRequest (value : OrderMassStatusRequest)
  | orderMassActionRequest (value : OrderMassActionRequest)
  deriving DecidableEq, Repr

def Outgoing.seqNum : Outgoing → Nat
  | .partyDetailsDefinitionRequest value => value.seqNum
  | .newOrderSingle value => value.seqNum
  | .orderCancelReplaceRequest value => value.seqNum
  | .orderCancelRequest value => value.seqNum

def Outgoing.orderRequestId : Outgoing → Option Nat
  | .partyDetailsDefinitionRequest _ => none
  | .newOrderSingle value => some value.orderRequestId
  | .orderCancelReplaceRequest value => some value.orderRequestId
  | .orderCancelRequest value => some value.orderRequestId

/-- The number of a business message. -/
def Sent.seqNum : Sent → Option Nat
  | .order value => some value.seqNum
  | .orderMassStatusRequest value => some value.seqNum
  | .orderMassActionRequest value => some value.seqNum
  | .negotiate _ | .establish _ | .sequence _ _ => none

/-- The number that a session message announces. -/
def Sent.nextSeqNo : Sent → Option Nat
  | .establish value => some value.nextSeqNo
  | .sequence _ nextSeqNo => some nextSeqNo
  | .negotiate _ | .order _ | .orderMassStatusRequest _ | .orderMassActionRequest _ => none

/-- What a session gets from outside: the generated encoders, which throw if a text is too long
for its field, and the connection, which takes the n-th message handed to it or does not. -/
structure SessionEnv (D : Type) where
  order : OrderEnv
  download : Download2 D
  encodes : Sent → Bool
  accepts : Nat → Bool

structure Config where
  marketSegmentId : Nat
  account : String
  login : String
  firmId : String
  location : String
  tradingSystemName : String
  tradingSystemVersion : String
  deriving DecidableEq, Repr

/-- The readings of the clocks during an event, in nanoseconds. -/
structure Clock where
  originCreateTime : Nat
  system : Nat
  realtime : Nat
  deriving DecidableEq, Repr

def keepAliveInterval : Nat := 30000000000

/-- `handed` counts the messages given to the connection manager. In `tried` stand the messages of
the current connection and whether they left; the source keeps neither. -/
structure Session (D : Type) where
  config : Config
  connectionStatus : ConnectionStatus := .undefined
  msgSeqNum : Nat := 0
  download : D
  nextHeartbeat : Nat := 0
  uuid : Nat := 0
  requestId : Nat := 0
  handed : Nat := 0
  tried : List (Sent × Bool) := []
  deriving DecidableEq, Repr

namespace Session

def start (env : SessionEnv D) (config : Config) : Session D :=
  { config := config, download := env.download.init }

def ready (s : Session D) : Bool := s.connectionStatus = .ready

/-- What the requests of clients read. -/
def orderEntry (s : Session D) : OrderEntry :=
  { marketSegmentId := s.config.marketSegmentId, account := s.config.account
    firmId := s.config.firmId, location := s.config.location, ready := s.ready
    msgSeqNum := s.msgSeqNum }

/-- The messages that have left on the current connection. -/
def line (s : Session D) : List Sent := (s.tried.filter Prod.snd).map Prod.fst

abbrev Action (D : Type) := Command (Session D) Failure

variable (env : SessionEnv D) (clock : Clock)

/-- The encoder may throw. A message that the connection does not take is only logged. -/
def send (message : Sent) : Action D := fun s =>
  if env.encodes message then
    ({ s with
        handed := s.handed + 1, tried := s.tried ++ [(message, env.accepts s.handed)]
        nextHeartbeat := clock.system + keepAliveInterval }, none)
  else ({ s with tried := s.tried ++ [(message, false)] }, some .runtimeError)

def setStatus (status : ConnectionStatus) : Action D :=
  .update fun s => { s with connectionStatus := status }

def sendNegotiate : Action D := fun s =>
  let s := { s with uuid := clock.realtime / 1000 }
  send env clock (.negotiate
    { requestTimestamp := clock.realtime, uuid := s.uuid, session := s.config.login
      firmId := s.config.firmId }) s

def sendEstablish : Action D := fun s =>
  send env clock (.establish
    { requestTimestamp := clock.realtime, uuid := s.uuid, session := s.config.login
      firmId := s.config.firmId, tradingSystemName := s.config.tradingSystemName
      tradingSystemVersion := s.config.tradingSystemVersion, tradingSystemVendor := "ROQ GMBH"
      nextSeqNo := s.orderEntry.peekNextSeqNum
      keepAliveInterval := keepAliveInterval / 1000000 }) s

def sendSequence : Action D := fun s =>
  send env clock (.sequence s.uuid s.orderEntry.peekNextSeqNum) s

/-- The number is taken before the message is encoded. -/
def sendPartyDetailsDefinitionRequest : Action D := fun s =>
  let (entry, request) := s.orderEntry.sendPartyDetailsDefinitionRequest
  send env clock (.order request) { s with msgSeqNum := entry.msgSeqNum }

def sendOrderMassStatusRequest : Action D := fun s =>
  let (seqNum, entry) := s.orderEntry.fetchNextSeqNum
  let s := { s with requestId := s.requestId + 1, msgSeqNum := entry.msgSeqNum }
  send env clock (.orderMassStatusRequest
    { partyDetailsListReqId := partyDetailsListReqId, massStatusReqId := s.requestId
      seqNum := seqNum, senderId := s.config.account, sendingTimeEpoch := clock.realtime
      location := s.config.location, marketSegmentId := s.config.marketSegmentId }) s

/-- The definition of the party details, as long as there is no list to refer to. -/
def sendPartyDetails : Action D :=
  if partyDetailsListReqId = 0 then sendPartyDetailsDefinitionRequest env clock else .skip

def sendOrderMassActionRequest : Action D :=
  (sendPartyDetails env clock).andThen fun s =>
    let (seqNum, entry) := s.orderEntry.fetchNextSeqNum
    let s := { s with requestId := s.requestId + 1, msgSeqNum := entry.msgSeqNum }
    send env clock (.orderMassActionRequest
      { partyDetailsListReqId := partyDetailsListReqId, orderRequestId := s.requestId
        seqNum := seqNum, senderId := s.config.account, sendingTimeEpoch := clock.realtime
        location := s.config.location, marketSegmentId := s.config.marketSegmentId }) s

/-- The messages of a request, in order. Each took its number before it was encoded. -/
def sendOrders : List Outgoing → Action D
  | [] => .skip
  | message :: rest =>
    Command.andThen
      (fun s => send env clock (.order message) { s with msgSeqNum := message.seqNum })
      (sendOrders rest)

/-- `OrderEntry::download`, the callback. -/
def onDownload : State → Action D
  | .undefined => .skip
  | .orders => (sendPartyDetails env clock).andThen (sendOrderMassStatusRequest env clock)
  | .done => setStatus .ready

def downloadBegin : Action D := fun s =>
  let (download, states) := env.download.begin s.download
  Command.all (states.map (onDownload env clock)) { s with download := download }

def downloadCheckRelaxed (state : State) : Action D := fun s =>
  let (download, states) := env.download.checkRelaxed s.download state
  Command.all (states.map (onDownload env clock)) { s with download := download }

/-- A request is checked as a whole before the first of its messages is sent. -/
def onRequest (sd : SecurityDefinitions Qp Qo) (request : OrderEntry.Request) : Action D := fun s =>
  let step := s.orderEntry.onRequest { env.order with now := clock.realtime } sd request
  match step.failure with
  | some failure => (s, some failure)
  | none => sendOrders env clock step.sent s

def onCancelAllOrders : Action D := fun s =>
  if s.ready then sendOrderMassActionRequest env clock s else (s, some .notReady)

def onConnected : Action D := (sendNegotiate env clock).andThen (setStatus .loginSent)

def onDisconnected : Action D := .update fun s =>
  { s with
    msgSeqNum := 0, download := env.download.reset s.download, nextHeartbeat := 0
    connectionStatus := .disconnected, tried := [] }

/-- The heartbeat of the source: `refreshed` is the answer of the connection manager. -/
def onTimer (refreshed : Bool) : Action D := fun s =>
  if refreshed ∧ s.ready ∧ clock.originCreateTime < s.nextHeartbeat then sendSequence env clock s
  else (s, none)

/-- The messages from the exchange. -/
inductive Inbound where
  | negotiationResponse501 | negotiationReject502 | establishmentAck504 | establishmentReject505
  | sequence506 | terminate507 | retransmission509 | retransmitReject510 | notApplied513
  | partyDetailsDefinitionRequestAck519 | businessReject521 | executionReportReject523
  | executionReport (value : ExecutionReport) (lastRptRequested : Bool)
  | executionReportTradeSpread526 | executionReportTradeSpreadLeg527 | orderCancelReject535
  | orderCancelReplaceReject536 | securityDefinitionResponse561 | orderMassActionReport562
  | executionReportPendingCancel564 | executionReportPendingReplace565
  deriving DecidableEq, Repr

/-- Rejects and `Terminate` only ask the connection manager to close, and `Disconnected` follows.
The other messages concern orders and not the session. -/
def onInbound : Inbound → Action D
  | .negotiationResponse501 => sendEstablish env clock
  | .establishmentAck504 => (setStatus .downloading).andThen (downloadBegin env clock)
  | .executionReport value lastRptRequested =>
    if value.template = .status532 ∧ lastRptRequested then downloadCheckRelaxed env clock .orders
    else .skip
  | _ => .skip

inductive Event (Qp Qo : Type) where
  | timer (refreshed : Bool)
  | connected
  | disconnected
  | inbound (message : Inbound)
  | request (sd : SecurityDefinitions Qp Qo) (request : OrderEntry.Request)
  | cancelAllOrders

def step : Event Qp Qo → Action D
  | .timer refreshed => onTimer env clock refreshed
  | .connected => onConnected env clock
  | .disconnected => onDisconnected env
  | .inbound message => onInbound env clock message
  | .request sd request => onRequest env clock sd request
  | .cancelAllOrders => onCancelAllOrders env clock

/-- A run of one session, from its construction. -/
def runFrom (config : Config) (events : List (Clock × Event Qp Qo)) : Session D :=
  Command.run (fun e => step env e.1 e.2) events (start env config)

end Session

/-- A download of one stage at a time. -/
def Download2.staged : Download2 State where
  init := .undefined
  begin _ := (.orders, [.orders])
  checkRelaxed current state := if current = state then (.done, [.done]) else (current, [])
  reset _ := .undefined

/-- The fields of the exchange hold 20 characters of a client order id. -/
def Sent.fits : Sent → Bool
  | .order (.newOrderSingle value) => value.clOrdId.length ≤ 20
  | .order (.orderCancelReplaceRequest value) => value.clOrdId.length ≤ 20
  | .order (.orderCancelRequest value) => value.clOrdId.length ≤ 20
  | _ => true

/-- A connection that takes everything. -/
def SessionEnv.sample : SessionEnv State :=
  { order := OrderEnv.exact 0, download := Download2.staged, encodes := Sent.fits
    accepts := fun _ => true }

def Config.sample : Config :=
  { marketSegmentId := 64, account := "ACC", login := "SES", firmId := "FIRM", location := "NY"
    tradingSystemName := "roq-cme", tradingSystemVersion := "1" }

/-- The answer of the exchange when there are no orders to report. -/
def noWorkingOrders : ExecutionReport :=
  { template := .status532, orderID := none, securityID := none, orderRequestID := 0
    senderID := "ACC", clOrdID := "", execID := "", side := .null, ordType := .null
    timeInForce := .null, transactTime := none, ordStatus := .undefined, orderQty := 0
    price := none, stopPx := none, leavesQty := none, cumQty := none, lastQty := none
    lastPx := none, aggressorIndicator := none, noFills := [] }

/-- From the connection to the end of the download, at time `t`. -/
def Session.login (Qp Qo : Type) (t : Nat) : List (Clock × Session.Event Qp Qo) :=
  [.connected, .inbound .negotiationResponse501, .inbound .establishmentAck504,
    .inbound (.executionReport noWorkingOrders true)].map fun event => (⟨t, t, t⟩, event)

end RoqCme.Gateway
