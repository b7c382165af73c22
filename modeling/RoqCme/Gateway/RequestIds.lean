import RoqCme.Gateway.Readiness

/-! The ids of order requests. An id packs the request type, the user and the order into 64 bits,
and a response that echoes it is handed to the user and the order found there. Mass actions and
mass status requests take their ids from a counter. -/
namespace RoqCme.Gateway
open RoqCme.Ilink RoqCme.MarketData RoqCme.Lib
variable {Qp Qo D : Type}

/-- `ORDER_ID_MAX` -/
def orderIdMax : Nat := 2 ^ 48 - 1

/-- `encode_order_request_id` for any value of the byte under the request type, as they come out
of `decode_order_request_id`. -/
def encodeRequestByte (type userId orderId : Nat) : Nat :=
  type <<< 56 ||| userId <<< 48 ||| orderId

/-- What the handlers read of `ExecutionReportReject523`, `OrderCancelReject535` and
`OrderCancelReplaceReject536`. -/
structure OrderReject where
  clOrdID : String
  text : String
  orderRequestID : Nat
  deriving DecidableEq, Repr

/-- `BusinessReject521`. -/
structure BusinessReject where
  refMsgType : String
  text : String
  businessRejectRefID : Option Nat
  deriving DecidableEq, Repr

/-- A rejected `server::oms::Response`. -/
structure Rejection where
  requestType : Nat
  text : String
  clientOrderId : String
  deriving DecidableEq, Repr

/-- The response is handed to a user and an order, or to the order with its client order id. -/
inductive Rejected where
  | toOrder (value : Rejection) (userId orderId : Nat)
  | toClientOrderId (value : Rejection)
  deriving DecidableEq, Repr

def OrderReject.rejection (value : OrderReject) : Rejection :=
  { requestType := (decodeOrderRequestId value.orderRequestID).1, text := value.text
    clientOrderId := value.clOrdID }

def onExecutionReportReject523 (value : OrderReject) : Rejected :=
  let (_, userId, orderId) := decodeOrderRequestId value.orderRequestID
  .toOrder value.rejection userId orderId

def onOrderCancelReject535 (value : OrderReject) : Rejected := .toClientOrderId value.rejection

def onOrderCancelReplaceReject536 (value : OrderReject) : Rejected :=
  .toClientOrderId value.rejection

/-- Messages of the types D, G and F are those of the three order requests. -/
def onBusinessReject521 (value : BusinessReject) : Option Rejected :=
  if value.refMsgType = "D" ∨ value.refMsgType = "G" ∨ value.refMsgType = "F" then
    let (type, userId, orderId) := decodeOrderRequestId (value.businessRejectRefID.getD 0)
    some (.toOrder { requestType := type, text := value.text, clientOrderId := "" } userId orderId)
  else none

theorem RequestType.code_lt (type : RequestType) : type.code < 2 ^ 8 := by
  cases type with
  | undefined | createOrder | modifyOrder | cancelOrder => decide

theorem RequestType.code_injective {type type' : RequestType} (h : type.code = type'.code) :
    type = type' := by
  cases type <;> cases type' <;> first | rfl | cases h

/-- The fields do not overlap. -/
theorem encodeRequestByte_eq {userId orderId : Nat} (type : Nat) (hu : userId < 2 ^ 8)
    (ho : orderId < 2 ^ 48) :
    encodeRequestByte type userId orderId = type * 2 ^ 56 + userId * 2 ^ 48 + orderId := by
  have hhigh : type <<< 56 ||| userId <<< 48 = (type * 2 ^ 8 + userId) <<< 48 := by
    rw [← Nat.shiftLeft_eq type 8, Nat.shiftLeft_add_eq_or_of_lt hu, Nat.shiftLeft_or_distrib,
      ← Nat.shiftLeft_add]
  rw [encodeRequestByte, hhigh, ← Nat.shiftLeft_add_eq_or_of_lt ho, Nat.shiftLeft_eq]
  omega

theorem decode_encodeRequestByte {type userId orderId : Nat} (ht : type < 2 ^ 8)
    (hu : userId < 2 ^ 8) (ho : orderId < 2 ^ 48) :
    decodeOrderRequestId (encodeRequestByte type userId orderId) = (type, userId, orderId) := by
  rw [encodeRequestByte_eq type hu ho]
  simp only [decodeOrderRequestId, Nat.shiftRight_eq_div_pow, Prod.mk.injEq]
  refine ⟨?_, ?_, ?_⟩ <;> omega

theorem encode_decodeOrderRequestId {value : Nat} (h : value < 2 ^ 64) :
    encodeRequestByte (decodeOrderRequestId value).1 (decodeOrderRequestId value).2.1
      (decodeOrderRequestId value).2.2 = value := by
  simp only [decodeOrderRequestId, Nat.shiftRight_eq_div_pow]
  rw [encodeRequestByte_eq _ (Nat.mod_lt _ (by decide)) (Nat.mod_lt _ (by decide))]
  omega

theorem decode_encodeOrderRequestId (type : RequestType) {userId orderId : Nat}
    (hu : userId < 2 ^ 8) (ho : orderId ≤ orderIdMax) :
    decodeOrderRequestId (encodeOrderRequestId type userId orderId) =
      (type.code, userId, orderId) := by
  have hlt : orderId < 2 ^ 48 := by
    rw [orderIdMax] at ho
    omega
  exact decode_encodeRequestByte type.code_lt hu hlt

theorem encodeOrderRequestId_injective {type type' : RequestType} {userId userId' orderId
    orderId' : Nat} (hu : userId < 2 ^ 8) (ho : orderId ≤ orderIdMax) (hu' : userId' < 2 ^ 8)
    (ho' : orderId' ≤ orderIdMax)
    (h : encodeOrderRequestId type userId orderId = encodeOrderRequestId type' userId' orderId') :
    type = type' ∧ userId = userId' ∧ orderId = orderId' := by
  have hdecode := congrArg decodeOrderRequestId h
  rw [decode_encodeOrderRequestId type hu ho, decode_encodeOrderRequestId type' hu' ho'] at hdecode
  obtain ⟨hcode, hrest⟩ := Prod.mk.inj hdecode
  exact ⟨RequestType.code_injective hcode, Prod.mk.inj hrest⟩

/-- The request type alone puts the ids of orders above the counter. -/
theorem OrderEntry.Request.le_orderRequestId (request : OrderEntry.Request) :
    2 ^ 56 ≤ request.orderRequestId := by
  have hcode : 1 ≤ request.type.code := by
    cases request with
    | create | modify | cancel => simp [OrderEntry.Request.type, RequestType.code]
  calc 2 ^ 56 ≤ request.type.code <<< 56 := by
        rw [Nat.shiftLeft_eq]
        omega
    _ ≤ request.type.code <<< 56 ||| request.order.userId <<< 48 := Nat.left_le_or
    _ ≤ request.orderRequestId := Nat.left_le_or

def Sent.orderRequestId : Sent → Option Nat
  | .order value => value.orderRequestId
  | .negotiate _ | .establish _ | .sequence _ _ | .orderMassStatusRequest _
  | .orderMassActionRequest _ => none

/-- The id that was drawn from `request_id_`. -/
def Sent.drawnId : Sent → Option Nat
  | .orderMassStatusRequest value => some value.massStatusReqId
  | .orderMassActionRequest value => some value.orderRequestId
  | .negotiate _ | .establish _ | .sequence _ _ | .order _ => none

namespace Session

/-- Since `s` the session has tried more messages: those of orders carry an id of `ids`, the others
have drawn theirs from the counter. -/
structure Issues (ids : Nat → Prop) (s t : Session D) : Prop where
  counter : s.requestId ≤ t.requestId
  tried : ∃ new, t.tried = s.tried ++ new ∧ ∀ p ∈ new,
    (∀ id, p.1.orderRequestId = some id → ids id) ∧
      ∀ id, p.1.drawnId = some id → 0 < id ∧ id ≤ t.requestId

section Issues
variable {ids : Nat → Prop} {s t u : Session D}

theorem Issues.refl (s : Session D) : Issues ids s s := ⟨le_rfl, [], by simp, by simp⟩

theorem Issues.congr (h : Issues ids s t) (htried : u.tried = t.tried)
    (hcounter : t.requestId ≤ u.requestId) : Issues ids s u := by
  obtain ⟨hle, new, htried', hnew⟩ := h
  refine ⟨hle.trans hcounter, new, htried.trans htried', ?_⟩
  intro p hp
  refine ⟨(hnew p hp).1, ?_⟩
  intro id hid
  obtain ⟨hpos, hid⟩ := (hnew p hp).2 id hid
  exact ⟨hpos, hid.trans hcounter⟩

variable (env : SessionEnv D) (clock : Clock)

theorem Issues.send (h : Issues ids s t) {message : Sent}
    (horder : ∀ id, message.orderRequestId = some id → ids id)
    (hdrawn : ∀ id, message.drawnId = some id → 0 < id ∧ id ≤ t.requestId) :
    Issues ids s (send env clock message t).1 := by
  obtain ⟨hle, new, htried, hnew⟩ := h
  have hcounter : (Session.send env clock message t).1.requestId = t.requestId := by
    unfold Session.send
    split
    · rfl
    · rfl
  obtain ⟨⟨left, hleft⟩, -⟩ := send_spec env clock message t
  refine ⟨by rw [hcounter]; exact hle, new ++ [(message, left)], ?_, ?_⟩
  · rw [hleft, htried, List.append_assoc]
  · rw [hcounter]
    intro p hp
    rw [List.mem_append, List.mem_singleton] at hp
    obtain hp | rfl := hp
    · exact hnew p hp
    · exact ⟨horder, hdrawn⟩

/-- A message of the session itself has no such id. -/
theorem Issues.send_plain (h : Issues ids s t) {message : Sent}
    (horder : message.orderRequestId = none) (hdrawn : message.drawnId = none) :
    Issues ids s (Session.send env clock message t).1 := by
  refine h.send env clock ?_ ?_
  · rw [horder]
    exact nofun
  · rw [hdrawn]
    exact nofun

/-- A message that draws the next id from the counter. -/
theorem Issues.send_next (h : Issues ids s t) (msgSeqNum : Nat) {message : Sent}
    (horder : message.orderRequestId = none) (hdrawn : message.drawnId = some (t.requestId + 1)) :
    Issues ids s (Session.send env clock message
      { t with requestId := t.requestId + 1, msgSeqNum := msgSeqNum }).1 := by
  have h' : Issues ids s { t with requestId := t.requestId + 1, msgSeqNum := msgSeqNum } :=
    h.congr rfl (Nat.le_succ _)
  refine h'.send env clock ?_ ?_
  · rw [horder]
    exact nofun
  · intro id hid
    rw [hdrawn] at hid
    cases hid
    exact ⟨Nat.succ_pos _, le_rfl⟩

theorem setStatus_issues (status : ConnectionStatus) :
    Command.Keeps (Issues ids s) (setStatus status : Action D) :=
  Command.keeps_update fun _ h => h.congr rfl le_rfl

theorem sendPartyDetails_issues : Command.Keeps (Issues ids s) (sendPartyDetails env clock) := by
  intro t h
  have h' : Issues ids s
      { t with msgSeqNum := t.orderEntry.sendPartyDetailsDefinitionRequest.1.msgSeqNum } :=
    h.congr rfl le_rfl
  exact h'.send_plain env clock rfl rfl

theorem sendOrderMassStatusRequest_issues :
    Command.Keeps (Issues ids s) (sendOrderMassStatusRequest env clock) :=
  fun t h => h.send_next env clock t.orderEntry.fetchNextSeqNum.2.msgSeqNum rfl rfl

theorem sendOrderMassActionRequest_issues :
    Command.Keeps (Issues ids s) (sendOrderMassActionRequest env clock) := by
  refine (sendPartyDetails_issues env clock).andThen ?_
  exact fun t h => h.send_next env clock t.orderEntry.fetchNextSeqNum.2.msgSeqNum rfl rfl

theorem sendOrders_issues {messages : List Outgoing}
    (h : ∀ message ∈ messages, ∀ id, message.orderRequestId = some id → ids id) :
    Command.Keeps (Issues ids s) (sendOrders env clock messages) := by
  induction messages with
  | nil => exact Command.keeps_skip
  | cons message rest ih =>
    refine Command.Keeps.andThen ?_ (ih fun m hm => h m (List.mem_cons_of_mem message hm))
    intro t ht
    have ht' : Issues ids s { t with msgSeqNum := message.seqNum } := ht.congr rfl le_rfl
    exact ht'.send env clock (h message (by simp)) nofun

theorem onDownload_issues (state : State) :
    Command.Keeps (Issues ids s) (onDownload env clock state) := by
  cases state with
  | undefined => exact Command.keeps_skip
  | orders =>
    exact (sendPartyDetails_issues env clock).andThen (sendOrderMassStatusRequest_issues env clock)
  | done => exact setStatus_issues .ready

theorem onDownloads_issues (states : List State) :
    Command.Keeps (Issues ids s) (Command.all (states.map (onDownload env clock))) := by
  apply Command.keeps_all
  intro c hc
  obtain ⟨state, -, rfl⟩ := List.mem_map.1 hc
  exact onDownload_issues env clock state

theorem onInbound_issues (message : Inbound) :
    Command.Keeps (Issues ids s) (onInbound env clock message) := by
  cases message with
  | negotiationResponse501 =>
    intro t h
    exact h.send_plain env clock rfl rfl
  | establishmentAck504 =>
    refine (setStatus_issues .downloading).andThen ?_
    intro t h
    exact onDownloads_issues env clock _ _ (h.congr rfl le_rfl)
  | executionReport value lastRptRequested =>
    simp only [onInbound]
    split
    · intro t h
      exact onDownloads_issues env clock _ _ (h.congr rfl le_rfl)
    · exact Command.keeps_skip
  | _ => exact Command.keeps_skip

/-- Both messages of a request: the party details have no id, the order has that of the request. -/
theorem onRequest_issues (sd : SecurityDefinitions Qp Qo) (request : OrderEntry.Request)
    (h : ids request.orderRequestId) :
    Command.Keeps (Issues ids s) (onRequest env clock sd request) := by
  intro t ht
  simp only [onRequest]
  obtain ⟨failure, hr⟩ | ⟨message, hm, hr⟩ := OrderEntry.onRequest_cases
    { env.order with now := clock.realtime } sd t.orderEntry request
  · rw [hr]
    exact ht
  · rw [hr]
    refine sendOrders_issues env clock ?_ t ht
    intro m hmem id hid
    obtain rfl | rfl : m = t.orderEntry.sendPartyDetailsDefinitionRequest.2 ∨
        m = message t.orderEntry.sendPartyDetailsDefinitionRequest.1.fetchNextSeqNum.1 := by
      simpa [OrderEntry.sendOrder, partyDetailsListReqId] using hmem
    · cases hid
    · rw [(hm _).2] at hid
      cases hid
      exact h

theorem step_issues (event : Event Qp Qo) (hquiet : event ≠ .disconnected)
    (hids : ∀ sd request, event = .request sd request → ids request.orderRequestId)
    (s : Session D) : Issues ids s (step env clock event s).1 := by
  cases event with
  | timer refreshed =>
    simp only [step, onTimer]
    split
    · exact (Issues.refl s).send_plain env clock rfl rfl
    · exact Issues.refl s
  | connected =>
    refine Command.Keeps.andThen ?_ (setStatus_issues .loginSent) s (Issues.refl s)
    intro t h
    have h' : Issues ids s { t with uuid := clock.realtime / 1000 } := h.congr rfl le_rfl
    exact h'.send_plain env clock rfl rfl
  | disconnected => exact absurd rfl hquiet
  | inbound message => exact onInbound_issues env clock message s (Issues.refl s)
  | request sd request =>
    exact onRequest_issues env clock sd request (hids sd request rfl) s (Issues.refl s)
  | cancelAllOrders =>
    simp only [step, onCancelAllOrders]
    split
    · exact sendOrderMassActionRequest_issues env clock s (Issues.refl s)
    · exact Issues.refl s

end Issues

/-- The invariant of a run: where the ids of its messages come from, on this connection and on all
earlier ones. -/
def Issued (ids : Nat → Prop) (st : Session D × List Moment) : Prop :=
  ∀ message left, .tried message left ∈ st.2 →
    (∀ id, message.orderRequestId = some id → ids id) ∧
      ∀ id, message.drawnId = some id → 0 < id ∧ id ≤ st.1.requestId

section Run
variable {env : SessionEnv D} {ids : Nat → Prop}

theorem Issued.observe {st : Session D × List Moment} (h : Issued ids st)
    (e : Clock × Event Qp Qo)
    (hids : ∀ sd request, e.2 = .request sd request → ids request.orderRequestId) :
    Issued ids (observe env st e) := by
  by_cases hquiet : e.2 = .disconnected
  · -- the counter goes on over a disconnect
    intro message left hmem
    simp only [Session.observe, hquiet, step, onDisconnected, Command.update, Event.moments,
      List.drop_nil, List.map_nil, List.append_nil, List.mem_append, List.mem_singleton,
      reduceCtorEq, or_false] at hmem ⊢
    exact h message left hmem
  · obtain ⟨hcounter, new, htried, hnew⟩ := step_issues env e.1 e.2 hquiet hids st.1
    intro message left hmem
    simp only [Session.observe, List.mem_append] at hmem ⊢
    rw [htried, List.drop_left, List.mem_map] at hmem
    obtain hmem | hmem | ⟨p, hp, hmoment⟩ := hmem
    · obtain ⟨horder, hdrawn⟩ := h message left hmem
      refine ⟨horder, ?_⟩
      intro id hid
      exact ⟨(hdrawn id hid).1, (hdrawn id hid).2.trans hcounter⟩
    · exact absurd rfl (Event.moments_ne_tried e.2 _ hmem message left)
    · cases hmoment
      exact hnew p hp

theorem observed_issued (config : Config) (events : List (Clock × Event Qp Qo))
    (hids : ∀ clock sd request, (clock, .request sd request) ∈ events →
      ids request.orderRequestId) : Issued ids (observed env config events) := by
  have hfold : ∀ (events : List (Clock × Event Qp Qo)) (st : Session D × List Moment),
      (∀ clock sd request, (clock, .request sd request) ∈ events → ids request.orderRequestId) →
        Issued ids st → Issued ids (events.foldl (Session.observe env) st) := by
    intro events
    induction events with
    | nil =>
      intro st _ h
      exact h
    | cons e events ih =>
      intro st hids h
      refine ih _ (fun clock sd request hr => hids clock sd request (by simp [hr])) ?_
      refine h.observe e ?_
      intro sd request he
      exact hids e.1 sd request (by rw [← he]; simp)
  have hstart : Issued ids (start env config, []) := by
    intro message left hmem
    cases hmem
  exact hfold events _ hids hstart

end Run
end Session

/-- Responses that echo the id are of this request type, and those that are handed over by the id
reach this user and this order. -/
structure Routes (sd : SecurityDefinitions Qp Qo) (id : Nat) (type : RequestType)
    (userId orderId : Nat) : Prop where
  businessReject521 : ∀ value, value.refMsgType ∈ ["D", "G", "F"] →
    value.businessRejectRefID = some id →
      onBusinessReject521 value = some (.toOrder ⟨type.code, value.text, ""⟩ userId orderId)
  executionReportReject523 : ∀ value, value.orderRequestID = id →
    onExecutionReportReject523 value =
      .toOrder ⟨type.code, value.text, value.clOrdID⟩ userId orderId
  orderCancelReject535 : ∀ value, value.orderRequestID = id →
    onOrderCancelReject535 value = .toClientOrderId ⟨type.code, value.text, value.clOrdID⟩
  orderCancelReplaceReject536 : ∀ value, value.orderRequestID = id →
    onOrderCancelReplaceReject536 value = .toClientOrderId ⟨type.code, value.text, value.clOrdID⟩
  executionReportNew522 : ∀ value, value.template = .new522 → value.orderRequestID = id →
    ∀ d ∈ onExecutionReport sd value, ∃ response,
      d = .response response userId orderId ∧ response.requestType = type.code
  executionReportModify531 : ∀ value, value.template = .modify531 → value.orderRequestID = id →
    ∀ d ∈ onExecutionReport sd value, ∃ response update,
      d = .responseWithUpdate response update ∧ response.requestType = type.code

theorem routes_of_decode (sd : SecurityDefinitions Qp Qo) {id userId orderId : Nat}
    {type : RequestType} (h : decodeOrderRequestId id = (type.code, userId, orderId)) :
    Routes sd id type userId orderId where
  businessReject521 := by
    intro value hmem hid
    have htype : value.refMsgType = "D" ∨ value.refMsgType = "G" ∨ value.refMsgType = "F" := by
      simpa using hmem
    rw [onBusinessReject521, if_pos htype, hid, Option.getD_some, h]
  executionReportReject523 := by
    rintro value rfl
    rw [onExecutionReportReject523, OrderReject.rejection, h]
  orderCancelReject535 := by
    rintro value rfl
    rw [onOrderCancelReject535, OrderReject.rejection, h]
  orderCancelReplaceReject536 := by
    rintro value rfl
    rw [onOrderCancelReplaceReject536, OrderReject.rejection, h]
  executionReportNew522 := by
    rintro value htemplate rfl d hd
    simp only [onExecutionReport, htemplate, h] at hd
    split at hd
    · cases hd
    · split at hd
      · cases hd
      · exact ⟨_, List.mem_singleton.1 hd, rfl⟩
  executionReportModify531 := by
    rintro value htemplate rfl d hd
    simp only [onExecutionReport, htemplate, h] at hd
    split at hd
    · cases hd
    · split at hd
      · cases hd
      · exact ⟨_, _, List.mem_singleton.1 hd, rfl⟩

/-- The user has an 8-bit id and the order an id up to the largest one. -/
def OrderEntry.Request.InRange (request : OrderEntry.Request) : Prop :=
  request.order.userId < 2 ^ 8 ∧ request.order.orderId ≤ orderIdMax

/-- Packing and unpacking are inverse to each other. In every run, the id of an order message is that
of a request of the run; it is none of the ids drawn from the counter while the counter is below
2^56, and responses that echo it are of the type of the request and reach its user and order. -/
theorem order_request_ids_correlate (env : SessionEnv D) (config : Config)
    (events : List (Clock × Session.Event Qp Qo)) :
    (∀ type userId orderId, type < 2 ^ 8 → userId < 2 ^ 8 → orderId ≤ orderIdMax →
      decodeOrderRequestId (encodeRequestByte type userId orderId) = (type, userId, orderId)) ∧
    (∀ value < 2 ^ 64, encodeRequestByte (decodeOrderRequestId value).1
      (decodeOrderRequestId value).2.1 (decodeOrderRequestId value).2.2 = value) ∧
    (∀ request request' : OrderEntry.Request, request.InRange → request'.InRange →
      request.orderRequestId = request'.orderRequestId → request.type = request'.type ∧
        request.order.userId = request'.order.userId ∧
        request.order.orderId = request'.order.orderId) ∧
    ∀ message left id, .tried message left ∈ Session.history env config events →
      message.orderRequestId = some id →
        (∃ clock sd request, (clock, .request sd request) ∈ events ∧
          id = request.orderRequestId ∧ (request.InRange → ∀ sd : SecurityDefinitions Qp Qo,
            Routes sd id request.type request.order.userId request.order.orderId)) ∧
        ((Session.runFrom env config events).requestId < 2 ^ 56 → ∀ message' left' id',
          .tried message' left' ∈ Session.history env config events →
            message'.drawnId = some id' → id ≠ id') := by
  refine ⟨?_, fun value h => encode_decodeOrderRequestId h, ?_, ?_⟩
  · intro type userId orderId ht hu ho
    exact decode_encodeRequestByte ht hu (Nat.lt_of_le_of_lt ho (by decide))
  · intro request request' h h' heq
    exact encodeOrderRequestId_injective h.1 h.2 h'.1 h'.2 heq
  · intro message left id hmem hid
    have hissued : Session.Issued (fun id => ∃ clock sd request,
        (clock, Session.Event.request sd request) ∈ events ∧ id = request.orderRequestId)
        (Session.observed env config events) :=
      Session.observed_issued config events fun clock sd request hr => ⟨clock, sd, request, hr, rfl⟩
    obtain ⟨clock, sd, request, hr, rfl⟩ := (hissued message left hmem).1 id hid
    refine ⟨⟨clock, sd, request, hr, rfl, ?_⟩, ?_⟩
    · intro hrange sd
      exact routes_of_decode sd (decode_encodeOrderRequestId request.type hrange.1 hrange.2)
    · intro hcounter message' left' id' hmem' hid'
      have hdrawn := ((hissued message' left' hmem').2 id' hid').2
      rw [Session.observed_session] at hdrawn
      have hle := request.le_orderRequestId
      omega

/-- The first user's first order, after a login that has drawn an id for the order status. -/
theorem order_request_ids_correlate_after_order :
    let events := Session.login Unit Unit 0 ++ [(⟨1, 1, 1⟩, Session.buyOne "1")]
    decodeOrderRequestId 0x0101000000000001 = (1, 1, 1) ∧
      ∀ message left id, .tried message left ∈
        Session.history SessionEnv.sample Config.sample events → message.drawnId = some id →
          0x0101000000000001 ≠ id := by
  intro events
  have h := order_request_ids_correlate SessionEnv.sample Config.sample events
  refine ⟨h.1 1 1 1 (by decide) (by decide) (by decide), ?_⟩
  have horder : .tried (.order (.newOrderSingle ⟨some 5000, 1, 7, .buy, 4, "ACC", "1", 0,
      0x0101000000000001, 1, none, "NY", .limit, .day, 0⟩)) true ∈
      Session.history SessionEnv.sample Config.sample events := by
    decide +kernel
  exact (h.2.2.2 _ true _ horder rfl).2 (by decide +kernel)

end RoqCme.Gateway
