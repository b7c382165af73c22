import RoqCme.Gateway.RequestIds
import RoqCme.Ilink.Parser
import RoqCme.Lib.FramedLoop
import RoqCme.Mdp.Parser

/-! One connection of order entry, from the bytes of the exchange to what is dispatched about orders.
The messages are cut out of the byte stream (`OrderEntry::operator()(Read)`), told apart by their
template (`protocol/ilink/parser`) and handled, in between timers and the requests of clients. -/
namespace RoqCme.Gateway
open RoqCme.Ilink RoqCme.MarketData RoqCme.Lib RoqCme.Mdp
variable {Qp Qo D : Type}

inductive MassActionResponse where
  | rejected | accepted | null
  deriving DecidableEq, Repr

structure AffectedOrder where
  origCIOrdID : String
  affectedOrderID : Nat
  deriving DecidableEq, Repr

structure OrderMassActionReport where
  massActionResponse : MassActionResponse
  senderID : String
  transactTime : Option Nat
  noAffectedOrders : List AffectedOrder
  deriving DecidableEq, Repr

structure CancelAllOrders where
  orderId : Nat
  exchange : String
  symbol : String
  side : Side
  strategyId : Nat
  deriving DecidableEq, Repr

inductive Origin where
  | gateway | exchange
  deriving DecidableEq, Repr

inductive RequestStatus where
  | forwarded | accepted | rejected
  deriving DecidableEq, Repr

/-- `unknown` is whether the error is `Error::UNKNOWN`; there is no error otherwise. -/
structure CancelAllOrdersAck where
  streamId : UInt16
  account : String
  orderId : Nat := 0
  exchange : String := ""
  symbol : String := ""
  side : Side := .undefined
  origin : Origin
  requestStatus : RequestStatus
  unknown : Bool := false
  text : String := ""
  requestId : String := ""
  strategyId : Nat := 0
  deriving DecidableEq, Repr

/-- What order entry dispatches about orders. -/
inductive OrderDispatch where
  | report (value : Dispatched)
  | rejected (value : Rejected)
  | cancelAllOrdersAck (value : CancelAllOrdersAck)
  deriving DecidableEq, Repr

/-- The messages that `Parser::Handler` has an operator for, with what the operators read. -/
inductive Received where
  | negotiationResponse501 | negotiationReject502 | establishmentAck504 | establishmentReject505
  | sequence506 | terminate507 | retransmission509 | retransmitReject510 | notApplied513
  | partyDetailsDefinitionRequestAck519
  | businessReject521 (value : BusinessReject)
  | executionReportReject523 (value : OrderReject)
  | executionReport (value : ExecutionReport) (lastRptRequested : Bool)
  | executionReportTradeSpread526 | executionReportTradeSpreadLeg527
  | orderCancelReject535 (value : OrderReject)
  | orderCancelReplaceReject536 (value : OrderReject)
  | securityDefinitionResponse561
  | orderMassActionReport562 (value : OrderMassActionReport)
  | executionReportPendingCancel564 | executionReportPendingReplace565
  deriving DecidableEq, Repr

/-- The generated classes belong to another repository. A constructor may throw, and the getters
give the fields. -/
structure Codec where
  constructs : Flyweight → Bool
  businessReject : Flyweight → BusinessReject
  orderReject : Flyweight → OrderReject
  executionReport : ReportTemplate → Flyweight → ExecutionReport
  lastRptRequested : Flyweight → Bool
  orderMassActionReport : Flyweight → OrderMassActionReport

/-- The switch of `Parser::dispatch`. The other templates are only logged. -/
def Codec.message (codec : Codec) (value : Flyweight) : Option Received :=
  let report := fun template => some (.executionReport (codec.executionReport template value) false)
  match value.templateId.toNat with
  | 501 => some .negotiationResponse501
  | 502 => some .negotiationReject502
  | 504 => some .establishmentAck504
  | 505 => some .establishmentReject505
  | 506 => some .sequence506
  | 507 => some .terminate507
  | 509 => some .retransmission509
  | 510 => some .retransmitReject510
  | 513 => some .notApplied513
  | 519 => some .partyDetailsDefinitionRequestAck519
  | 521 => some (.businessReject521 (codec.businessReject value))
  | 522 => report .new522
  | 523 => some (.executionReportReject523 (codec.orderReject value))
  | 525 => report .tradeOutright525
  | 526 => some .executionReportTradeSpread526
  | 527 => some .executionReportTradeSpreadLeg527
  | 531 => report .modify531
  | 532 => some (.executionReport (codec.executionReport .status532 value)
      (codec.lastRptRequested value))
  | 534 => report .cancel534
  | 564 => some .executionReportPendingCancel564
  | 565 => some .executionReportPendingReplace565
  | 535 => some (.orderCancelReject535 (codec.orderReject value))
  | 536 => some (.orderCancelReplaceReject536 (codec.orderReject value))
  | 562 => some (.orderMassActionReport562 (codec.orderMassActionReport value))
  | 561 => some .securityDefinitionResponse561
  | _ => none

/-- What the session makes of a message. -/
def Received.inbound : Received → Session.Inbound
  | .negotiationResponse501 => .negotiationResponse501
  | .negotiationReject502 => .negotiationReject502
  | .establishmentAck504 => .establishmentAck504
  | .establishmentReject505 => .establishmentReject505
  | .sequence506 => .sequence506
  | .terminate507 => .terminate507
  | .retransmission509 => .retransmission509
  | .retransmitReject510 => .retransmitReject510
  | .notApplied513 => .notApplied513
  | .partyDetailsDefinitionRequestAck519 => .partyDetailsDefinitionRequestAck519
  | .businessReject521 _ => .businessReject521
  | .executionReportReject523 _ => .executionReportReject523
  | .executionReport value lastRptRequested => .executionReport value lastRptRequested
  | .executionReportTradeSpread526 => .executionReportTradeSpread526
  | .executionReportTradeSpreadLeg527 => .executionReportTradeSpreadLeg527
  | .orderCancelReject535 _ => .orderCancelReject535
  | .orderCancelReplaceReject536 _ => .orderCancelReplaceReject536
  | .securityDefinitionResponse561 => .securityDefinitionResponse561
  | .orderMassActionReport562 _ => .orderMassActionReport562
  | .executionReportPendingCancel564 => .executionReportPendingCancel564
  | .executionReportPendingReplace565 => .executionReportPendingReplace565

/-- The stream and the account of an order entry object. -/
structure Line where
  streamId : UInt16
  account : String
  deriving DecidableEq, Repr

/-- An order that a mass action has canceled. -/
def AffectedOrder.update (report : OrderMassActionReport) (item : AffectedOrder) : OrderUpdate :=
  { account := report.senderID, exchange := "", symbol := "", side := .undefined
    orderType := .undefined, timeInForce := .undefined, createTimeUtc := 0
    updateTimeUtc := report.transactTime.getD 0, externalOrderId := toString item.affectedOrderID
    clientOrderId := item.origCIOrdID, orderStatus := .canceled, quantity := 0, price := none
    stopPrice := none, remainingQuantity := none, tradedQuantity := none
    lastTradedQuantity := none, lastTradedPrice := none, lastLiquidity := .undefined
    updateType := .incremental }

/-- Every affected order is reported before the acknowledgement. -/
def onOrderMassActionReport562 (line : Line) (value : OrderMassActionReport) :
    List OrderDispatch :=
  let ack : CancelAllOrdersAck :=
    { streamId := line.streamId, account := line.account, origin := .exchange
      requestStatus := .accepted }
  match value.massActionResponse with
  | .rejected =>
    [.cancelAllOrdersAck { ack with requestStatus := .rejected, unknown := true, text := "unknown" }]
  | .accepted =>
    (value.noAffectedOrders.map fun item => .report (.orderUpdate (item.update value))) ++
      [.cancelAllOrdersAck ack]
  | .null => []

/-- What the operator for a message dispatches. -/
def Received.dispatched (line : Line) (sd : SecurityDefinitions Qp Qo) :
    Received → List OrderDispatch
  | .businessReject521 value => (onBusinessReject521 value).toList.map .rejected
  | .executionReportReject523 value => [.rejected (onExecutionReportReject523 value)]
  | .executionReport value _ => (onExecutionReport sd value).map .report
  | .orderCancelReject535 value => [.rejected (onOrderCancelReject535 value)]
  | .orderCancelReplaceReject536 value => [.rejected (onOrderCancelReplaceReject536 value)]
  | .orderMassActionReport562 value => onOrderMassActionReport562 line value
  | _ => []

namespace Connection

/-- The session, and what has been dispatched about orders. -/
structure Account (D : Type) where
  session : Session D
  dispatched : List OrderDispatch := []

/-- What happens on a connection besides the bytes. -/
inductive Act (Qp Qo : Type) where
  | connected
  | timer (refreshed : Bool)
  | request (sd : SecurityDefinitions Qp Qo) (request : OrderEntry.Request)
  | cancelAllOrders (value : CancelAllOrders) (requestId : String)

/-- When bytes arrive: the clock, and the securities known at that time. -/
abbrev Arrival (Qp Qo : Type) := Clock × SecurityDefinitions Qp Qo

abbrev Happening (Qp Qo : Type) := Occasion (Arrival Qp Qo) UInt8 (Clock × Act Qp Qo)

variable (env : SessionEnv D) (codec : Codec) (line : Line)

/-- A command of the session. -/
def onSession (c : Session.Action D) : Command (Account D) Failure := fun a =>
  (⟨(c a.session).1, a.dispatched⟩, (c a.session).2)

/-- How a frame is read: nothing in it, one of the messages, an exception. -/
inductive Reading where
  | nothing
  | message (value : Received)
  | exception
  deriving DecidableEq, Repr

/-- `Parser::dispatch` on the contents of a frame, which hold one message at most: it takes all the
bytes behind its header. -/
def read (message : List UInt8) : Reading :=
  if message = [] then .nothing
  else if message.length < headerLength then .exception
  else
    let value := flyweightAt (message.take headerLength) (message.drop headerLength)
    match codec.message value with
    | none => .nothing
    | some received => if codec.constructs value then .message received else .exception

/-- The operator for a message. -/
def onReceived (c : Arrival Qp Qo) (received : Received) : Command (Account D) Failure :=
  (Command.update fun a =>
    { a with dispatched := a.dispatched ++ received.dispatched line c.2 }).andThen
    (onSession (Session.onInbound env c.1 received.inbound))

def handle (c : Arrival Qp Qo) (message : List UInt8) : Command (Account D) Failure :=
  match read codec message with
  | .nothing => .skip
  | .message received => onReceived env line c received
  | .exception => .throw .runtimeError

/-- The gateway acknowledges a request to cancel all orders once it has been sent. -/
def act : Clock × Act Qp Qo → Command (Account D) Failure
  | (clock, .connected) => onSession (Session.onConnected env clock)
  | (clock, .timer refreshed) => onSession (Session.onTimer env clock refreshed)
  | (clock, .request sd request) => onSession (Session.onRequest env clock sd request)
  | (clock, .cancelAllOrders value requestId) =>
    (onSession (Session.onCancelAllOrders env clock)).andThen (Command.update fun a =>
      { a with dispatched := a.dispatched ++ [.cancelAllOrdersAck
        { streamId := line.streamId, account := line.account, orderId := value.orderId
          exchange := value.exchange, symbol := value.symbol, side := value.side
          origin := .gateway, requestStatus := .forwarded, requestId := requestId
          strategyId := value.strategyId }] })

/-- A run on one connection. The connection manager keeps the bytes that are not drained. -/
def run (happenings : List (Happening Qp Qo)) (l : FramedLoop UInt8 (Account D)) :
    FramedLoop UInt8 (Account D) :=
  Command.run (FramedLoop.step parseHelper (handle env codec line) (act env line)) happenings l

/-- Dispatched for a message of the exchange, and not by the gateway on its own. -/
def OrderDispatch.fromExchange : OrderDispatch → Bool
  | .cancelAllOrdersAck value => value.origin = .exchange
  | .report _ | .rejected _ => true

/-- What a message leads to. -/
def told (x : Arrival Qp Qo × List UInt8) : List OrderDispatch :=
  match read codec x.2 with
  | .message received => received.dispatched line x.1.2
  | .nothing | .exception => []

/-- What a whole message, or something else, is for the session. -/
def sessionEvent : Arrival Qp Qo × List UInt8 ⊕ Clock × Act Qp Qo →
    Option (Clock × Session.Event Qp Qo)
  | .inl (c, message) =>
    match read codec message with
    | .message received => some (c.1, .inbound received.inbound)
    | .nothing | .exception => none
  | .inr (clock, .connected) => some (clock, .connected)
  | .inr (clock, .timer refreshed) => some (clock, .timer refreshed)
  | .inr (clock, .request sd request) => some (clock, .request sd request)
  | .inr (clock, .cancelAllOrders _ _) => some (clock, .cancelAllOrders)

theorem dispatched_fromExchange (received : Received) (sd : SecurityDefinitions Qp Qo) :
    (received.dispatched line sd).filter OrderDispatch.fromExchange =
      received.dispatched line sd := by
  rw [List.filter_eq_self]
  intro x hx
  cases received with
  | businessReject521 value =>
    obtain ⟨rejected, -, rfl⟩ := List.mem_map.1 hx
    rfl
  | executionReport value lastRptRequested =>
    obtain ⟨dispatched, -, rfl⟩ := List.mem_map.1 hx
    rfl
  | executionReportReject523 | orderCancelReject535 | orderCancelReplaceReject536 =>
    rw [List.mem_singleton.1 hx]
    rfl
  | orderMassActionReport562 value =>
    simp only [Received.dispatched, onOrderMassActionReport562] at hx
    split at hx
    · rw [List.mem_singleton.1 hx]
      rfl
    · cases List.mem_append.1 hx with
      | inl hx =>
        obtain ⟨item, -, rfl⟩ := List.mem_map.1 hx
        rfl
      | inr hx =>
        rw [List.mem_singleton.1 hx]
        rfl
    · cases hx
  | _ => cases hx

/-- The part of the dispatched items that comes from the exchange. -/
def Account.reported (a : Account D) : List OrderDispatch :=
  a.dispatched.filter OrderDispatch.fromExchange

theorem act_reported (e : Clock × Act Qp Qo) (a : Account D) :
    (act env line e a).1.reported = a.reported := by
  obtain ⟨clock, e⟩ := e
  cases e with
  | connected | timer | request => rfl
  | cancelAllOrders value requestId =>
    simp only [act, Command.andThen, onSession]
    split
    · simp [Command.update, Account.reported, OrderDispatch.fromExchange]
    · rfl

theorem handle_reported (c : Arrival Qp Qo) (message : List UInt8) (a : Account D) :
    (handle env codec line c message a).1.reported = a.reported ++ told codec line (c, message) := by
  unfold handle told
  cases read codec message with
  | nothing => exact (List.append_nil _).symm
  | exception => exact (List.append_nil _).symm
  | message received =>
    show List.filter _ (a.dispatched ++ received.dispatched line c.2) = _
    rw [List.filter_append, dispatched_fromExchange]
    rfl

/-- One step of the loop without the stream is at most one step of the session. -/
theorem wholeStep_session (e : Arrival Qp Qo × List UInt8 ⊕ Clock × Act Qp Qo) (a : Account D) :
    (wholeStep (handle env codec line) (act env line) e a).1.session =
      Command.run (fun e => Session.step env e.1 e.2) (sessionEvent codec e).toList a.session := by
  cases e with
  | inl x =>
    obtain ⟨c, message⟩ := x
    simp only [wholeStep, handle, sessionEvent]
    cases read codec message with
    | nothing | exception => rfl
    | message received => rfl
  | inr e =>
    obtain ⟨clock, e⟩ := e
    cases e with
    | connected | timer | request => rfl
    | cancelAllOrders value requestId =>
      simp only [wholeStep, act, Command.andThen, onSession]
      split
      · rfl
      · rfl

theorem run_wholeStep (events : List (Arrival Qp Qo × List UInt8 ⊕ Clock × Act Qp Qo))
    (a : Account D) :
    let final := Command.run (wholeStep (handle env codec line) (act env line)) events a
    final.session = Command.run (fun e => Session.step env e.1 e.2)
        (events.filterMap (sessionEvent codec)) a.session ∧
      final.reported =
        a.reported ++ (events.filterMap Sum.getLeft?).flatMap (told codec line) := by
  induction events generalizing a with
  | nil => exact ⟨rfl, (List.append_nil _).symm⟩
  | cons e events ih =>
    obtain ⟨hsession, hreported⟩ :=
      ih (wholeStep (handle env codec line) (act env line) e a).1
    refine ⟨?_, ?_⟩
    · have happ : (e :: events).filterMap (sessionEvent codec) =
          (sessionEvent codec e).toList ++ events.filterMap (sessionEvent codec) := by
        rw [List.filterMap_cons]
        cases sessionEvent codec e with
        | none => rfl
        | some x => rfl
      rw [happ, Command.run_append, ← wholeStep_session]
      exact hsession
    · refine hreported.trans ?_
      cases e with
      | inl x =>
        rw [wholeStep, handle_reported, List.append_assoc]
        rfl
      | inr e =>
        rw [wholeStep, act_reported]
        rfl

section Returns
variable {env codec line}
variable (hencodes : ∀ message : Sent, message.placesOrder = false → env.encodes message = true)
include hencodes

theorem send_returns (clock : Clock) {message : Sent} (h : message.placesOrder = false)
    (s : Session D) : (Session.send env clock message s).2 = none := by
  rw [Session.send, if_pos (hencodes message h)]

theorem onDownload_returns (clock : Clock) (state : State) :
    (Session.onDownload env clock state).Returns := by
  cases state with
  | undefined | done => exact fun _ => rfl
  | orders =>
    refine Command.Returns.andThen ?_ ?_
    · unfold Session.sendPartyDetails
      split
      · exact fun s => send_returns hencodes clock rfl _
      · exact fun _ => rfl
    · exact fun s => send_returns hencodes clock rfl _

theorem onInbound_returns (clock : Clock) (message : Session.Inbound) :
    (Session.onInbound env clock message).Returns := by
  have hall : ∀ states : List State,
      (Command.all (states.map (Session.onDownload env clock))).Returns := by
    intro states
    apply Command.returns_all
    intro c hc
    obtain ⟨state, -, rfl⟩ := List.mem_map.1 hc
    exact onDownload_returns hencodes clock state
  cases message with
  | negotiationResponse501 => exact fun s => send_returns hencodes clock rfl _
  | establishmentAck504 =>
    exact Command.Returns.andThen (fun _ => rfl) fun s => hall _ _
  | executionReport value lastRptRequested =>
    simp only [Session.onInbound]
    split
    · exact fun s => hall _ _
    · exact fun _ => rfl
  | _ => exact fun _ => rfl

theorem handle_returns (c : Arrival Qp Qo) {message : List UInt8}
    (h : read codec message ≠ .exception) : (handle env codec line c message).Returns := by
  unfold handle
  cases hread : read codec message with
  | nothing => exact fun _ => rfl
  | exception => exact absurd hread h
  | message received =>
    refine Command.Returns.andThen (fun _ => rfl) ?_
    exact fun a => onInbound_returns hencodes c.1 received.inbound a.session

/-- The bytes of a connection are a stream of whole messages. However they are cut and whatever
happens in between, the session is that of the messages, each of which arrives with the piece that
completes it, and every message has been reported once and in order. -/
theorem run_messages {messages : List (List UInt8)} (hvalid : ∀ m ∈ messages, ValidSize m)
    (hread : ∀ m ∈ messages, read codec m ≠ .exception)
    (happenings : List (Happening Qp Qo))
    (hbytes : happenings.flatMap Occasion.piece <+: messages.flatMap sofh) (a : Account D) :
    let events := framing.expand messages 0 happenings
    let final := (run env codec line happenings ⟨[], a⟩).state
    final.session = Command.run (fun e => Session.step env e.1 e.2)
        (events.filterMap (sessionEvent codec)) a.session ∧
      final.reported =
        a.reported ++ (events.filterMap Sum.getLeft?).flatMap (told codec line) ∧
      (events.filterMap Sum.getLeft?).map Prod.snd = messages.take
        (framing.complete messages (happenings.flatMap Occasion.piece).length) ∧
      events.filterMap Sum.getRight? = happenings.filterMap Occasion.other := by
  intro events final
  have hpart : framing.PartOfNext [] messages := by
    cases messages with
    | nil => rfl
    | cons m messages => exact ⟨List.nil_prefix, fun he => framing.frame_ne_nil m he.symm⟩
  have hfinal : final = Command.run (wholeStep (handle env codec line) (act env line)) events a :=
    framing.run_expand hvalid (fun c m hm => handle_returns hencodes c (hread m hm)) happenings
      (List.nil_append messages).symm hpart hbytes a
  obtain ⟨hsession, hreported⟩ := run_wholeStep env codec line events a
  refine ⟨by rw [hfinal]; exact hsession, by rw [hfinal]; exact hreported, ?_, ?_⟩
  · have hmessages := framing.expand_messages messages 0 happenings
    rw [Nat.zero_add, framing.due_zero] at hmessages
    rw [List.map_filterMap, hmessages]
  · exact framing.expand_acts messages 0 happenings

end Returns

/-- Generated classes for which every mass action has canceled the same two orders. -/
def sampleCodec : Codec :=
  { constructs := fun _ => true, businessReject := fun _ => ⟨"D", "", none⟩
    orderReject := fun _ => ⟨"", "", 0⟩
    executionReport := fun template _ => { noWorkingOrders with template := template }
    lastRptRequested := fun _ => true
    orderMassActionReport := fun _ => ⟨.accepted, "ACC", some 5, [⟨"A", 11⟩, ⟨"B", 12⟩]⟩ }

/-- A message of template 562 that consists of its header. -/
def sampleReport : List UInt8 := [0, 0, 0x32, 2, 0, 0, 0, 0]

/-- The frame arrives in two pieces, with a timer between them. -/
def sampleHappenings : List (Happening Unit Unit) :=
  [.arrive (⟨1, 1, 1⟩, {}) ((sofh sampleReport).take 5), .act (⟨2, 2, 2⟩, .timer true),
    .arrive (⟨3, 3, 3⟩, {}) ((sofh sampleReport).drop 5)]

/-- Both orders are reported, and then the acknowledgement, when the second piece arrives. -/
theorem run_messages_two_pieces :
    ((run SessionEnv.sample sampleCodec ⟨1, "ACC"⟩ sampleHappenings
        ⟨[], ⟨Session.start SessionEnv.sample Config.sample, []⟩⟩).state.reported =
      onOrderMassActionReport562 ⟨1, "ACC"⟩
        ⟨.accepted, "ACC", some 5, [⟨"A", 11⟩, ⟨"B", 12⟩]⟩) := by
  have hencodes : ∀ message : Sent, message.placesOrder = false →
      SessionEnv.sample.encodes message = true := by
    intro message h
    cases message with
    | order value =>
      cases value with
      | partyDetailsDefinitionRequest => rfl
      | newOrderSingle | orderCancelReplaceRequest | orderCancelRequest => cases h
    | _ => rfl
  have hvalid : ∀ m ∈ [sampleReport], ValidSize m := by
    intro m hm
    rw [List.mem_singleton.1 hm]
    exact ⟨by decide, by decide⟩
  have hread : ∀ m ∈ [sampleReport], read sampleCodec m ≠ .exception := by
    intro m hm
    rw [List.mem_singleton.1 hm]
    decide
  have hbytes : sampleHappenings.flatMap Occasion.piece <+: [sampleReport].flatMap sofh := by
    decide
  exact (run_messages hencodes hvalid hread sampleHappenings hbytes
    ⟨Session.start SessionEnv.sample Config.sample, []⟩).2.1

end Connection
end RoqCme.Gateway
