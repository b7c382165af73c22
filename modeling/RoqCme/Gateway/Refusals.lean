import RoqCme.Gateway.SequenceNumbers

/-! Order requests step by step, with each check and each message where the source has them. A
refused request ends before anything was changed. -/
namespace RoqCme.Gateway
open RoqCme.Ilink RoqCme.MarketData RoqCme.Lib
variable {Qp Qo D : Type}

/-- The kind of request that a message makes. -/
def Outgoing.requestType : Outgoing → Option RequestType
  | .partyDetailsDefinitionRequest _ => none
  | .newOrderSingle _ => some .createOrder
  | .orderCancelReplaceRequest _ => some .modifyOrder
  | .orderCancelRequest _ => some .cancelOrder

namespace Session
variable (env : SessionEnv D) (clock : Clock)

/-- `fetch_next_seq_num` in the construction of a message, which is then sent. -/
def sendNumbered (message : Nat → Outgoing) : Action D := fun s =>
  let (seqNum, entry) := s.orderEntry.fetchNextSeqNum
  send env clock (.order (message seqNum)) { s with msgSeqNum := entry.msgSeqNum }

def throwing (failure : Failure) : Action D := fun s => (s, some failure)

def sendNewOrderSingle (sd : SecurityDefinitions Qp Qo) (createOrder : CreateOrder) (order : Order)
    (requestId : String) : Action D := fun s =>
  match sd.findSecurityId s.config.marketSegmentId order.symbol with
  | none => throwing (s.orderEntry.noMapping order.symbol) s
  | some securityId =>
    match sd.getSecurity securityId with
    | none => throwing .fatal s
    | some security =>
      if createOrder.exchange ≠ security.exchange then
        throwing (.rejected .invalidExchange ("Expected: " ++ security.exchange)) s
      else
        match getQuantity env.order createOrder.quantity with
        | .error failure => throwing failure s
        | .ok orderQty =>
          match mapExecutionInstructions createOrder.executionInstructions with
          | .error failure => throwing failure s
          | .ok execInst =>
            (sendPartyDetails env clock).andThen (sendNumbered env clock fun seqNum =>
              .newOrderSingle
                { price := createOrder.price, orderQty := orderQty, securityId := securityId
                  side := mapSide createOrder.side, seqNum := seqNum, senderId := s.config.account
                  clOrdId := requestId, partyDetailsListReqId := partyDetailsListReqId
                  orderRequestId := encodeOrderRequestId .createOrder order.userId order.orderId
                  sendingTimeEpoch := clock.realtime, stopPx := createOrder.stopPrice
                  location := s.config.location, ordType := mapOrderType createOrder.orderType
                  timeInForce := mapTimeInForce createOrder.timeInForce
                  execInst := execInst }) s

def sendOrderCancelReplaceRequest (sd : SecurityDefinitions Qp Qo) (modifyOrder : ModifyOrder)
    (order : Order) : Action D := fun s =>
  match sd.findSecurityId s.config.marketSegmentId order.symbol with
  | none => throwing (s.orderEntry.noMapping order.symbol) s
  | some securityId =>
    match getQuantity env.order modifyOrder.quantity with
    | .error failure => throwing failure s
    | .ok orderQty =>
      (sendPartyDetails env clock).andThen (sendNumbered env clock fun seqNum =>
        .orderCancelReplaceRequest
          { price := modifyOrder.price, orderQty := orderQty, securityId := securityId
            side := mapSide order.side, seqNum := seqNum, senderId := s.config.account
            clOrdId := order.clientOrderId, partyDetailsListReqId := partyDetailsListReqId
            stopPx := none
            orderRequestId := encodeOrderRequestId .modifyOrder order.userId order.orderId
            sendingTimeEpoch := clock.realtime, location := s.config.location
            ordType := mapOrderType order.orderType
            timeInForce := mapTimeInForce order.timeInForce }) s

def sendOrderCancelRequest (sd : SecurityDefinitions Qp Qo) (order : Order) : Action D := fun s =>
  match sd.findSecurityId s.config.marketSegmentId order.symbol with
  | none => throwing (s.orderEntry.noMapping order.symbol) s
  | some securityId =>
    (sendPartyDetails env clock).andThen (sendNumbered env clock fun seqNum =>
      .orderCancelRequest
        { partyDetailsListReqId := partyDetailsListReqId, seqNum := seqNum
          senderId := s.config.account, clOrdId := order.clientOrderId
          orderRequestId := encodeOrderRequestId .cancelOrder order.userId order.orderId
          sendingTimeEpoch := clock.realtime, location := s.config.location
          securityId := securityId, side := mapSide order.side }) s

/-- The three operators of `server::OrderActionStream`. -/
def onOrderAction (sd : SecurityDefinitions Qp Qo) (request : OrderEntry.Request) : Action D :=
  fun s =>
    if s.ready then
      match request with
      | .create createOrder order requestId =>
        sendNewOrderSingle env clock sd createOrder order requestId s
      | .modify modifyOrder order => sendOrderCancelReplaceRequest env clock sd modifyOrder order s
      | .cancel order => sendOrderCancelRequest env clock sd order s
    else throwing .notReady s

/-- The reasons to refuse a request. Any of them is enough, whatever the others say. The process ends
at a security id that is mapped and has no security. -/
inductive Refused (order : OrderEnv) (sd : SecurityDefinitions Qp Qo) (s : Session D) :
    OrderEntry.Request → Prop
  | notReady (request : OrderEntry.Request) (h : s.ready = false) : Refused order sd s request
  | noMapping (request : OrderEntry.Request)
      (h : sd.findSecurityId s.config.marketSegmentId request.order.symbol = none) :
      Refused order sd s request
  | noSecurity (createOrder : CreateOrder) (o : Order) (requestId : String) (securityId : Int)
      (hfind : sd.findSecurityId s.config.marketSegmentId o.symbol = some securityId)
      (h : sd.getSecurity securityId = none) : Refused order sd s (.create createOrder o requestId)
  | exchange (createOrder : CreateOrder) (o : Order) (requestId : String) (securityId : Int)
      (security : Tools.Security Qp Qo)
      (hfind : sd.findSecurityId s.config.marketSegmentId o.symbol = some securityId)
      (hsecurity : sd.getSecurity securityId = some security)
      (h : createOrder.exchange ≠ security.exchange) :
      Refused order sd s (.create createOrder o requestId)
  | createQuantity (createOrder : CreateOrder) (o : Order) (requestId : String) (failure : Failure)
      (h : getQuantity order createOrder.quantity = .error failure) :
      Refused order sd s (.create createOrder o requestId)
  | modifyQuantity (modifyOrder : ModifyOrder) (o : Order) (failure : Failure)
      (h : getQuantity order modifyOrder.quantity = .error failure) :
      Refused order sd s (.modify modifyOrder o)
  | executionInstructions (createOrder : CreateOrder) (o : Order) (requestId : String)
      (failure : Failure)
      (h : mapExecutionInstructions createOrder.executionInstructions = .error failure) :
      Refused order sd s (.create createOrder o requestId)

section Order
variable {env clock} {sd : SecurityDefinitions Qp Qo} {s : Session D}

theorem sendOrders_cons_of_none {message : Outgoing} {rest : List Outgoing}
    (h : (send env clock (.order message) { s with msgSeqNum := message.seqNum }).2 = none) :
    sendOrders env clock (message :: rest) s = sendOrders env clock rest
      (send env clock (.order message) { s with msgSeqNum := message.seqNum }).1 :=
  Command.andThen_of_none h

theorem sendOrders_cons_of_some {message : Outgoing} {rest : List Outgoing} {e : Failure}
    (h : (send env clock (.order message) { s with msgSeqNum := message.seqNum }).2 = some e) :
    sendOrders env clock (message :: rest) s =
      send env clock (.order message) { s with msgSeqNum := message.seqNum } :=
  Command.andThen_of_some h

theorem sendOrders_singleton (message : Outgoing) (s : Session D) :
    sendOrders env clock [message] s =
      send env clock (.order message) { s with msgSeqNum := message.seqNum } :=
  congrFun (Command.andThen_skip _) s

/-- After the party details, the next number is the one that the request took for its order. -/
theorem sendPartyDetails_next (s : Session D) :
    (sendPartyDetails env clock s).1.orderEntry.fetchNextSeqNum.1 =
      s.orderEntry.sendPartyDetailsDefinitionRequest.1.fetchNextSeqNum.1 := by
  have hnum := (send_spec env clock (.order s.orderEntry.sendPartyDetailsDefinitionRequest.2)
    { s with msgSeqNum := s.orderEntry.sendPartyDetailsDefinitionRequest.2.seqNum }).2
  exact congrArg (fun n => (n + 1) % maxSeqNum) hnum

/-- The two messages of a request, sent one after the other. -/
theorem sendOrders_sendOrder {message : Nat → Outgoing} (h : ∀ n, (message n).seqNum = n) :
    sendOrders env clock (s.orderEntry.sendOrder message).sent s =
      (sendPartyDetails env clock).andThen (sendNumbered env clock message) s := by
  let order := message s.orderEntry.sendPartyDetailsDefinitionRequest.1.fetchNextSeqNum.1
  cases hend : (sendPartyDetails env clock s).2 with
  | none =>
    have hrest : sendOrders env clock [order] (sendPartyDetails env clock s).1 =
        sendNumbered env clock message (sendPartyDetails env clock s).1 := by
      have horder : order = message (sendPartyDetails env clock s).1.orderEntry.fetchNextSeqNum.1 :=
        congrArg message (sendPartyDetails_next s).symm
      refine (sendOrders_singleton order _).trans ?_
      rw [horder, h]
      rfl
    rw [Command.andThen_of_none hend]
    exact (sendOrders_cons_of_none hend).trans hrest
  | some e =>
    rw [Command.andThen_of_some hend]
    exact sendOrders_cons_of_some hend

/-- Checking a request as a whole before sending comes to the same. -/
theorem onOrderAction_eq (request : OrderEntry.Request) :
    onOrderAction env clock sd request = onRequest env clock sd request := by
  funext s
  simp only [onOrderAction, onRequest, OrderEntry.onRequest]
  have hready : s.orderEntry.ready = s.ready := rfl
  rw [hready]
  split
  · cases request with
    | create createOrder order requestId =>
      simp only [sendNewOrderSingle, OrderEntry.sendNewOrderSingle]
      have hsegment : s.orderEntry.marketSegmentId = s.config.marketSegmentId := rfl
      rw [hsegment]
      cases sd.findSecurityId s.config.marketSegmentId order.symbol with
      | none => rfl
      | some securityId =>
        dsimp only
        cases sd.getSecurity securityId with
        | none => rfl
        | some security =>
          dsimp only
          split
          · rfl
          · have hquantity : getQuantity { env.order with now := clock.realtime }
                createOrder.quantity = getQuantity env.order createOrder.quantity := rfl
            rw [hquantity]
            cases getQuantity env.order createOrder.quantity with
            | error failure => rfl
            | ok orderQty =>
              dsimp only
              cases mapExecutionInstructions createOrder.executionInstructions with
              | error failure => rfl
              | ok execInst => exact (sendOrders_sendOrder fun _ => rfl).symm
    | modify modifyOrder order =>
      simp only [sendOrderCancelReplaceRequest, OrderEntry.sendOrderCancelReplaceRequest]
      have hsegment : s.orderEntry.marketSegmentId = s.config.marketSegmentId := rfl
      rw [hsegment]
      cases sd.findSecurityId s.config.marketSegmentId order.symbol with
      | none => rfl
      | some securityId =>
        dsimp only
        have hquantity : getQuantity { env.order with now := clock.realtime }
            modifyOrder.quantity = getQuantity env.order modifyOrder.quantity := rfl
        rw [hquantity]
        cases getQuantity env.order modifyOrder.quantity with
        | error failure => rfl
        | ok orderQty => exact (sendOrders_sendOrder fun _ => rfl).symm
    | cancel order =>
      simp only [sendOrderCancelRequest, OrderEntry.sendOrderCancelRequest]
      have hsegment : s.orderEntry.marketSegmentId = s.config.marketSegmentId := rfl
      rw [hsegment]
      cases sd.findSecurityId s.config.marketSegmentId order.symbol with
      | none => rfl
      | some securityId => exact (sendOrders_sendOrder fun _ => rfl).symm
  · rfl

/-- The message of a request, for any sequence number. -/
structure MessageOf (request : OrderEntry.Request) (message : Nat → Outgoing) : Prop where
  seqNum : ∀ n, (message n).seqNum = n
  requestType : ∀ n, (message n).requestType = some request.type
  orderRequestId : ∀ n, (message n).orderRequestId = some request.orderRequestId

/-- The request was refused with the state as it was, or the two messages were sent. -/
def Decides (env : SessionEnv D) (clock : Clock) (sd : SecurityDefinitions Qp Qo)
    (request : OrderEntry.Request) (s : Session D) (result : Session D × Option Failure) : Prop :=
  (Refused env.order sd s request ∧ ∃ failure, result = (s, some failure)) ∨
    (¬ Refused env.order sd s request ∧ ∃ message, MessageOf request message ∧
      result = (sendPartyDetails env clock).andThen (sendNumbered env clock message) s)

theorem sendNewOrderSingle_decides (createOrder : CreateOrder) (order : Order) (requestId : String)
    (hready : s.ready = true) : Decides env clock sd (.create createOrder order requestId) s
      (sendNewOrderSingle env clock sd createOrder order requestId s) := by
  simp only [sendNewOrderSingle]
  cases hfind : sd.findSecurityId s.config.marketSegmentId order.symbol with
  | none => exact Or.inl ⟨.noMapping _ hfind, _, rfl⟩
  | some securityId =>
    dsimp only
    cases hsecurity : sd.getSecurity securityId with
    | none => exact Or.inl ⟨.noSecurity _ _ _ securityId hfind hsecurity, _, rfl⟩
    | some security =>
      dsimp only
      split
      · next hexchange =>
        exact Or.inl ⟨.exchange _ _ _ securityId security hfind hsecurity hexchange, _, rfl⟩
      · next hexchange =>
        cases hquantity : getQuantity env.order createOrder.quantity with
        | error failure => exact Or.inl ⟨.createQuantity _ _ _ failure hquantity, _, rfl⟩
        | ok orderQty =>
          dsimp only
          cases hinst : mapExecutionInstructions createOrder.executionInstructions with
          | error failure => exact Or.inl ⟨.executionInstructions _ _ _ failure hinst, _, rfl⟩
          | ok execInst =>
            refine Or.inr ⟨?_, _, ⟨fun _ => rfl, fun _ => rfl, fun _ => rfl⟩, rfl⟩
            intro h
            cases h <;> simp_all [OrderEntry.Request.order]

theorem sendOrderCancelReplaceRequest_decides (modifyOrder : ModifyOrder) (order : Order)
    (hready : s.ready = true) : Decides env clock sd (.modify modifyOrder order) s
      (sendOrderCancelReplaceRequest env clock sd modifyOrder order s) := by
  simp only [sendOrderCancelReplaceRequest]
  cases hfind : sd.findSecurityId s.config.marketSegmentId order.symbol with
  | none => exact Or.inl ⟨.noMapping _ hfind, _, rfl⟩
  | some securityId =>
    dsimp only
    cases hquantity : getQuantity env.order modifyOrder.quantity with
    | error failure => exact Or.inl ⟨.modifyQuantity _ _ failure hquantity, _, rfl⟩
    | ok orderQty =>
      refine Or.inr ⟨?_, _, ⟨fun _ => rfl, fun _ => rfl, fun _ => rfl⟩, rfl⟩
      intro h
      cases h <;> simp_all [OrderEntry.Request.order]

theorem sendOrderCancelRequest_decides (order : Order) (hready : s.ready = true) :
    Decides env clock sd (.cancel order) s (sendOrderCancelRequest env clock sd order s) := by
  simp only [sendOrderCancelRequest]
  cases hfind : sd.findSecurityId s.config.marketSegmentId order.symbol with
  | none => exact Or.inl ⟨.noMapping _ hfind, _, rfl⟩
  | some securityId =>
    refine Or.inr ⟨?_, _, ⟨fun _ => rfl, fun _ => rfl, fun _ => rfl⟩, rfl⟩
    intro h
    cases h <;> simp_all [OrderEntry.Request.order]

theorem onOrderAction_decides (request : OrderEntry.Request) :
    Decides env clock sd request s (onOrderAction env clock sd request s) := by
  simp only [onOrderAction]
  split
  · next hready =>
    cases request with
    | create createOrder order requestId =>
      exact sendNewOrderSingle_decides createOrder order requestId hready
    | modify modifyOrder order =>
      exact sendOrderCancelReplaceRequest_decides modifyOrder order hready
    | cancel order => exact sendOrderCancelRequest_decides order hready
  · next hready => exact Or.inl ⟨.notReady request (by simpa using hready), .notReady, rfl⟩

theorem send_of_encodes (clock : Clock) {message : Sent} (h : env.encodes message = true) (s : Session D) :
    send env clock message s = ({ s with
      handed := s.handed + 1, tried := s.tried ++ [(message, env.accepts s.handed)]
      nextHeartbeat := clock.system + keepAliveInterval }, none) :=
  if_pos h

/-- Both messages encode: they are handed over with the next two numbers. -/
theorem sendPartyDetails_andThen_sendNumbered {message : Nat → Outgoing} {n : Nat}
    (hn : n = (s.msgSeqNum + 1) % maxSeqNum)
    (hfirst : env.encodes (.order (.partyDetailsDefinitionRequest
      ⟨0, n, s.config.firmId, s.config.account⟩)) = true)
    (hsecond : env.encodes (.order (message ((n + 1) % maxSeqNum))) = true) :
    (sendPartyDetails env clock).andThen (sendNumbered env clock message) s = ({ s with
      msgSeqNum := (n + 1) % maxSeqNum, handed := s.handed + 2
      tried := s.tried ++
        [(.order (.partyDetailsDefinitionRequest ⟨0, n, s.config.firmId, s.config.account⟩),
            env.accepts s.handed),
          (.order (message ((n + 1) % maxSeqNum)), env.accepts (s.handed + 1))]
      nextHeartbeat := clock.system + keepAliveInterval }, none) := by
  subst hn
  have h := send_of_encodes clock hfirst
    { s with msgSeqNum := (s.msgSeqNum + 1) % maxSeqNum }
  have hend : (sendPartyDetails env clock s).2 = none := congrArg Prod.snd h
  rw [Command.andThen_of_none hend]
  have hstate : (sendPartyDetails env clock s).1 = _ := congrArg Prod.fst h
  rw [hstate]
  refine (send_of_encodes clock hsecond _).trans ?_
  simp only [List.append_assoc, List.cons_append, List.nil_append]
  rfl

end Order

/-- A request that is refused, for whatever reasons, leaves the session as it was. Any other request
whose two messages encode sends the party details and one order message of its own kind, with the
next two sequence numbers, and draws no other number. -/
theorem refused_requests_leave_no_trace (sd : SecurityDefinitions Qp Qo)
    (request : OrderEntry.Request) (s : Session D) :
    (Refused env.order sd s request →
      ∃ failure, onOrderAction env clock sd request s = (s, some failure)) ∧
    (¬ Refused env.order sd s request → ∃ order : Outgoing,
      let n := (s.msgSeqNum + 1) % maxSeqNum
      let details := Outgoing.partyDetailsDefinitionRequest
        ⟨0, n, s.config.firmId, s.config.account⟩
      order.seqNum = (n + 1) % maxSeqNum ∧ order.requestType = some request.type ∧
        order.orderRequestId = some request.orderRequestId ∧
        (env.encodes (.order details) = true → env.encodes (.order order) = true →
          onOrderAction env clock sd request s = ({ s with
            msgSeqNum := (n + 1) % maxSeqNum, handed := s.handed + 2
            tried := s.tried ++ [(.order details, env.accepts s.handed),
              (.order order, env.accepts (s.handed + 1))]
            nextHeartbeat := clock.system + keepAliveInterval }, none))) := by
  have hdecides : Decides env clock sd request s (onOrderAction env clock sd request s) :=
    onOrderAction_decides request
  obtain ⟨hrefused, hfailure⟩ | ⟨haccepted, message, hm, hresult⟩ := hdecides
  · exact ⟨fun _ => hfailure, fun h => absurd hrefused h⟩
  · refine ⟨fun h => absurd h haccepted, fun _ => ?_⟩
    refine ⟨message (((s.msgSeqNum + 1) % maxSeqNum + 1) % maxSeqNum), hm.seqNum _,
      hm.requestType _, hm.orderRequestId _, ?_⟩
    intro hfirst hsecond
    rw [hresult]
    exact sendPartyDetails_andThen_sendNumbered rfl hfirst hsecond

/-- After a login: an order with a negative quantity, and a good order. -/
theorem refused_order_leaves_no_trace :
    let env : SessionEnv State := { SessionEnv.sample with encodes := fun _ => true }
    let s := runFrom env Config.sample (Session.login Unit Unit 0)
    let sd := SecurityDefinitions.load (fun _ => false) () () [SecDef.sample 7 "ESZ5"]
    let request (quantity : Double) : OrderEntry.Request :=
      .create ⟨"CME", .buy, .limit, .gfd, [], quantity, some 5000, none⟩
        ⟨"ESZ5", .buy, .limit, .gfd, 1, 1, ""⟩ "1"
    (∃ failure, onOrderAction env ⟨1, 1, 1⟩ sd (request (some (-1))) s = (s, some failure)) ∧
      (onOrderAction env ⟨1, 1, 1⟩ sd (request (some 1)) s).1.msgSeqNum = 4 := by
  intro env s sd request
  have hrefused := refused_requests_leave_no_trace env ⟨1, 1, 1⟩ sd (request (some (-1))) s
  have haccepted := refused_requests_leave_no_trace env ⟨1, 1, 1⟩ sd (request (some 1)) s
  refine ⟨hrefused.1 (.createQuantity _ _ _ .runtimeError (by decide +kernel)), ?_⟩
  have hready : s.ready = true := by decide +kernel
  have hmapped : sd.findSecurityId s.config.marketSegmentId "ESZ5" = some 7 := by decide +kernel
  have hknown : (sd.getSecurity 7).map (·.exchange) = some "CME" := by decide +kernel
  have hquantity : getQuantity env.order (some 1) = .ok 1 := by decide +kernel
  have hok : ¬ Refused env.order sd s (request (some 1)) := by
    intro h
    cases h with
    | notReady _ h => rw [hready] at h; cases h
    | noMapping _ h => cases hmapped.symm.trans h
    | noSecurity _ _ _ _ hfind h =>
      cases hmapped.symm.trans hfind
      rw [h] at hknown
      cases hknown
    | exchange _ _ _ _ _ hfind hsecurity h =>
      cases hmapped.symm.trans hfind
      rw [hsecurity] at hknown
      exact h (Option.some.inj hknown).symm
    | createQuantity _ _ _ _ h => rw [hquantity] at h; cases h
    | executionInstructions _ _ _ _ h => cases h
  obtain ⟨order, -, -, -, hresult⟩ := haccepted.2 hok
  have hnum : s.msgSeqNum = 2 := by decide +kernel
  rw [hresult rfl rfl, hnum]
  rfl

end Session
end RoqCme.Gateway
