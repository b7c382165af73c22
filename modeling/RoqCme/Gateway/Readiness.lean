import RoqCme.Gateway.SequenceNumbers
import RoqCme.Lib.History

/-! When orders may leave. The session is ready once the download of orders has ended, and the
download starts with the acknowledgement of the exchange. What an order can rely on is read off the
history of a run: the events of the session and the messages that it tried to send. -/
namespace RoqCme.Gateway
open RoqCme.Ilink RoqCme.MarketData RoqCme.Lib
variable {Qp Qo D : Type}

/-- What order entry relies on: `begin` enters the first stage and calls back, `check_relaxed` goes on
from this stage and from no other, and `reset` leaves no stage. -/
structure Download2.Stages (download : Download2 D) (stage : D → State) : Prop where
  init : stage download.init = .undefined
  begin : ∀ d, stage (download.begin d).1 = .orders ∧ (download.begin d).2 = [.orders]
  advance : ∀ d, stage d = .orders → stage (download.checkRelaxed d .orders).1 = .done ∧
    (download.checkRelaxed d .orders).2 = [.done]
  stay : ∀ d, stage d ≠ .orders → stage (download.checkRelaxed d .orders).1 = stage d ∧
    (download.checkRelaxed d .orders).2 = []
  reset : ∀ d, stage (download.reset d) = .undefined

theorem Download2.staged_stages : Download2.staged.Stages id where
  init := rfl
  begin _ := ⟨rfl, rfl⟩
  advance d h := by
    rw [id] at h
    subst h
    exact ⟨rfl, rfl⟩
  stay d h := by
    have hif : Download2.staged.checkRelaxed d .orders = (d, []) := if_neg h
    rw [hif]
    exact ⟨rfl, rfl⟩
  reset _ := rfl

/-- The messages that create, change or cancel orders. -/
def Sent.placesOrder : Sent → Bool
  | .order (.newOrderSingle _) | .order (.orderCancelReplaceRequest _)
  | .order (.orderCancelRequest _) | .orderMassActionRequest _ => true
  | .order (.partyDetailsDefinitionRequest _) | .negotiate _ | .establish _ | .sequence _ _
  | .orderMassStatusRequest _ => false

/-- What happens to a session: events of the connection, the two messages from the exchange that
matter for the download, and the messages that the session tries to send. -/
inductive Moment where
  | connected
  | disconnected
  | acknowledged
  | reported
  | tried (message : Sent) (left : Bool)
  deriving DecidableEq, Repr

namespace Session

def Event.moments : Event Qp Qo → List Moment
  | .connected => [.connected]
  | .disconnected => [.disconnected]
  | .inbound .establishmentAck504 => [.acknowledged]
  | .inbound (.executionReport value lastRptRequested) =>
    if value.template = .status532 ∧ lastRptRequested then [.reported] else []
  | _ => []

def moment (p : Sent × Bool) : Moment := .tried p.1 p.2

section History
variable (env : SessionEnv D)

/-- The session and its history after one more event. -/
def observe (st : Session D × List Moment) (e : Clock × Event Qp Qo) : Session D × List Moment :=
  let s := (step env e.1 e.2 st.1).1
  (s, st.2 ++ (e.2.moments ++ (s.tried.drop st.1.tried.length).map moment))

def observed (config : Config) (events : List (Clock × Event Qp Qo)) :
    Session D × List Moment :=
  events.foldl (observe env) (start env config, [])

def history (config : Config) (events : List (Clock × Event Qp Qo)) : List Moment :=
  (observed env config events).2

theorem observed_session (config : Config) (events : List (Clock × Event Qp Qo)) :
    (observed env config events).1 = runFrom env config events := by
  have hfold : ∀ (events : List (Clock × Event Qp Qo)) (st : Session D × List Moment),
      (events.foldl (observe env) st).1 =
        Command.run (fun e => step env e.1 e.2) events st.1 := by
    intro events
    induction events with
    | nil =>
      intro st
      rfl
    | cons e events ih =>
      intro st
      exact ih (observe env st e)
  exact hfold events _

end History

/-- The session has tried to send these messages and nothing else of interest has changed. -/
structure Sends (s s' : Session D) (new : List (Sent × Bool)) : Prop where
  tried : s'.tried = s.tried ++ new
  download : s'.download = s.download
  status : s'.connectionStatus = s.connectionStatus

theorem Sends.refl (s : Session D) : Sends s s [] := ⟨by simp, rfl, rfl⟩

theorem Sends.trans {s t u : Session D} {new more : List (Sent × Bool)} (h : Sends s t new)
    (h' : Sends t u more) : Sends s u (new ++ more) :=
  ⟨by rw [h'.tried, h.tried, List.append_assoc], h'.download.trans h.download,
    h'.status.trans h.status⟩

section Senders
variable (env : SessionEnv D) (clock : Clock)

/-- A message that throws has not left. -/
theorem send_sends (message : Sent) (s : Session D) : ∃ left,
    Sends s (send env clock message s).1 [(message, left)] ∧
      ((send env clock message s).2 = none ∨ left = false) := by
  unfold send
  split
  · exact ⟨_, ⟨rfl, rfl, rfl⟩, Or.inl rfl⟩
  · exact ⟨_, ⟨rfl, rfl, rfl⟩, Or.inr rfl⟩

theorem sendOrders_sends (messages : List Outgoing) (s : Session D) :
    Command.Keeps (fun t => ∃ new, Sends s t new) (sendOrders env clock messages) := by
  induction messages with
  | nil => exact Command.keeps_skip
  | cons message rest ih =>
    refine Command.Keeps.andThen ?_ ih
    rintro t ⟨new, h⟩
    obtain ⟨left, hfirst, -⟩ := send_sends env clock (.order message)
      { t with msgSeqNum := message.seqNum }
    exact ⟨_, h.trans ⟨hfirst.tried, hfirst.download, hfirst.status⟩⟩

theorem sendPartyDetails_sends (s : Session D) : ∃ request left,
    Sends s (sendPartyDetails env clock s).1
        [(.order (.partyDetailsDefinitionRequest request), left)] ∧
      ((sendPartyDetails env clock s).2 = none ∨ left = false) := by
  obtain ⟨left, h, hthrow⟩ := send_sends env clock
    (.order s.orderEntry.sendPartyDetailsDefinitionRequest.2)
    { s with msgSeqNum := s.orderEntry.sendPartyDetailsDefinitionRequest.1.msgSeqNum }
  exact ⟨_, left, ⟨h.tried, h.download, h.status⟩, hthrow⟩

theorem sendOrderMassStatusRequest_sends (s : Session D) : ∃ request left,
    Sends s (sendOrderMassStatusRequest env clock s).1
      [(.orderMassStatusRequest request, left)] := by
  let request : OrderMassStatusRequest :=
    { partyDetailsListReqId := partyDetailsListReqId, massStatusReqId := s.requestId + 1
      seqNum := s.orderEntry.fetchNextSeqNum.1, senderId := s.config.account
      sendingTimeEpoch := clock.realtime, location := s.config.location
      marketSegmentId := s.config.marketSegmentId }
  obtain ⟨left, h, -⟩ := send_sends env clock (.orderMassStatusRequest request)
    { s with requestId := s.requestId + 1, msgSeqNum := s.orderEntry.fetchNextSeqNum.2.msgSeqNum }
  exact ⟨request, left, ⟨h.tried, h.download, h.status⟩⟩

/-- The order status was requested, unless a message did not leave. -/
def Requested (new : List (Sent × Bool)) : Prop :=
  (∃ value, (.orderMassStatusRequest value, true) ∈ new) ∨ ∃ message, (message, false) ∈ new

/-- The callback of the download for the stage of orders. -/
theorem onDownload_orders_sends (s : Session D) : ∃ new,
    Sends s (onDownload env clock .orders s).1 new ∧ Requested new ∧
      ∀ p ∈ new, p.1.placesOrder = false := by
  obtain ⟨request, left, hfirst, hthrow⟩ := sendPartyDetails_sends env clock s
  rw [onDownload]
  cases hend : (sendPartyDetails env clock s).2 with
  | some e =>
    rw [Command.andThen_of_some hend]
    refine ⟨_, hfirst, Or.inr ⟨.order (.partyDetailsDefinitionRequest request), ?_⟩, ?_⟩
    · rw [hend] at hthrow
      simpa using hthrow
    · intro p hp
      rw [List.mem_singleton.1 hp]
      rfl
  | none =>
    rw [Command.andThen_of_none hend]
    obtain ⟨status, left', hsecond⟩ := sendOrderMassStatusRequest_sends env clock
      (sendPartyDetails env clock s).1
    refine ⟨_, hfirst.trans hsecond, ?_, ?_⟩
    · cases left' with
      | true => exact Or.inl ⟨status, by simp⟩
      | false => exact Or.inr ⟨.orderMassStatusRequest status, by simp⟩
    · intro p hp
      simp only [List.cons_append, List.nil_append, List.mem_cons, List.not_mem_nil,
        or_false] at hp
      obtain rfl | rfl := hp
      · rfl
      · rfl

end Senders

/-- What one event can do, as far as the readiness of the session goes. -/
inductive Change (stage : D → State) (s s' : Session D) : List Moment → List (Sent × Bool) → Prop
  | disconnected (hstage : stage s'.download = .undefined) (hstatus : s'.connectionStatus ≠ .ready)
      (htried : s'.tried = []) : Change stage s s' [.disconnected] []
  | acknowledged (new : List (Sent × Bool)) (hstatus : s'.connectionStatus ≠ .ready)
      (htried : s'.tried = s.tried ++ new) (hnew : Requested new)
      (hplaced : ∀ p ∈ new, p.1.placesOrder = false) : Change stage s s' [.acknowledged] new
  | reported (hbefore : stage s.download = .orders) (hafter : stage s'.download = .done)
      (htried : s'.tried = s.tried) : Change stage s s' [.reported] []
  | quiet (moments : List Moment) (new : List (Sent × Bool)) (hmoments : .disconnected ∉ moments)
      (hstage : stage s'.download = stage s.download)
      (hstatus : s'.connectionStatus = .ready → s.connectionStatus = .ready)
      (htried : s'.tried = s.tried ++ new)
      (hplaced : ∀ p ∈ new, p.1.placesOrder = true → s.connectionStatus = .ready) :
      Change stage s s' moments new

section Change
variable {stage : D → State}

theorem Sends.change {s s' : Session D} {new : List (Sent × Bool)} (h : Sends s s' new)
    (hplaced : ∀ p ∈ new, p.1.placesOrder = true → s.connectionStatus = .ready) :
    Change stage s s' [] new :=
  .quiet [] new (by simp) (by rw [h.download]) (fun hr => h.status ▸ hr) h.tried hplaced

theorem Sends.change_session {s s' : Session D} {message : Sent} {left : Bool}
    (h : Sends s s' [(message, left)]) (hsession : message.placesOrder = false) :
    Change stage s s' [] [(message, left)] := by
  refine h.change ?_
  intro p hp hplaced
  rw [List.mem_singleton.1 hp, hsession] at hplaced
  cases hplaced

theorem Change.silent (s : Session D) (moments : List Moment) (h : .disconnected ∉ moments) :
    Change stage s s moments [] :=
  .quiet moments [] h rfl id (by simp) (by simp)

variable (env : SessionEnv D) (clock : Clock)

theorem onConnected_change (s : Session D) :
    ∃ new, Change stage s (onConnected env clock s).1 [.connected] new := by
  let value : CanonicalMessage :=
    { requestTimestamp := clock.realtime, uuid := clock.realtime / 1000
      session := s.config.login, firmId := s.config.firmId }
  obtain ⟨left, h, -⟩ := send_sends env clock (.negotiate value)
    { s with uuid := clock.realtime / 1000 }
  have h : Sends s (sendNegotiate env clock s).1 [(.negotiate value, left)] :=
    ⟨h.tried, h.download, h.status⟩
  have hplaced : ∀ p ∈ [(Sent.negotiate value, left)], p.1.placesOrder = true →
      s.connectionStatus = .ready := by
    intro p hp hplaced
    rw [List.mem_singleton.1 hp] at hplaced
    cases hplaced
  refine ⟨[(.negotiate value, left)], ?_⟩
  rw [onConnected]
  cases hend : (sendNegotiate env clock s).2 with
  | none =>
    rw [Command.andThen_of_none hend]
    refine .quiet _ _ (by simp) (congrArg stage h.download) ?_ h.tried hplaced
    intro hready
    cases hready
  | some e =>
    rw [Command.andThen_of_some hend]
    exact .quiet _ _ (by simp) (congrArg stage h.download) (fun hr => h.status ▸ hr) h.tried hplaced

theorem onRequest_change (sd : SecurityDefinitions Qp Qo) (request : OrderEntry.Request)
    (s : Session D) : ∃ new, Change stage s (onRequest env clock sd request s).1 [] new := by
  rw [onRequest]
  cases hfail : (s.orderEntry.onRequest { env.order with now := clock.realtime } sd
      request).failure with
  | some failure => exact ⟨[], .silent s [] (by simp)⟩
  | none =>
    obtain ⟨new, h⟩ := sendOrders_sends env clock (s.orderEntry.onRequest
      { env.order with now := clock.realtime } sd request).sent s s ⟨[], .refl s⟩
    refine ⟨new, h.change ?_⟩
    intro p _ _
    -- a session that is not ready refuses the request
    by_contra hstatus
    have hready : s.orderEntry.ready = false := by
      simpa [orderEntry, ready] using hstatus
    have hrefused : s.orderEntry.onRequest { env.order with now := clock.realtime } sd request =
        s.orderEntry.fail .notReady := by
      simp [OrderEntry.onRequest, hready]
    rw [hrefused] at hfail
    cases hfail

theorem onCancelAllOrders_change (s : Session D) :
    ∃ new, Change stage s (onCancelAllOrders env clock s).1 [] new := by
  rw [onCancelAllOrders]
  split
  · next hready =>
    have hstatus : s.connectionStatus = .ready := by simpa [ready] using hready
    have hsends : Command.Keeps (fun t => ∃ new, Sends s t new)
        (sendOrderMassActionRequest env clock) := by
      refine Command.Keeps.andThen ?_ ?_
      · rintro t ⟨new, h⟩
        obtain ⟨request, left, hfirst, -⟩ := sendPartyDetails_sends env clock t
        exact ⟨_, h.trans hfirst⟩
      · rintro t ⟨new, h⟩
        obtain ⟨left, hsecond, -⟩ := send_sends env clock (.orderMassActionRequest
          { partyDetailsListReqId := partyDetailsListReqId, orderRequestId := t.requestId + 1
            seqNum := t.orderEntry.fetchNextSeqNum.1, senderId := t.config.account
            sendingTimeEpoch := clock.realtime, location := t.config.location
            marketSegmentId := t.config.marketSegmentId })
          { t with
            requestId := t.requestId + 1
            msgSeqNum := t.orderEntry.fetchNextSeqNum.2.msgSeqNum }
        exact ⟨_, h.trans ⟨hsecond.tried, hsecond.download, hsecond.status⟩⟩
    obtain ⟨new, h⟩ := hsends s ⟨[], .refl s⟩
    exact ⟨new, h.change fun _ _ _ => hstatus⟩
  · exact ⟨[], .silent s [] (by simp)⟩

theorem onTimer_change (refreshed : Bool) (s : Session D) :
    ∃ new, Change stage s (onTimer env clock refreshed s).1 [] new := by
  rw [onTimer]
  split
  · obtain ⟨left, h, -⟩ := send_sends env clock (.sequence s.uuid s.orderEntry.peekNextSeqNum) s
    exact ⟨_, Sends.change_session h rfl⟩
  · exact ⟨[], .silent s [] (by simp)⟩

theorem onEstablishmentAck504_change (hstages : env.download.Stages stage) (s : Session D) :
    ∃ new, Change stage s (onInbound env clock .establishmentAck504 s).1 [.acknowledged] new := by
  obtain ⟨-, hcalls⟩ := hstages.begin s.download
  obtain ⟨new, h, hnew, hplaced⟩ := onDownload_orders_sends env clock
    { s with connectionStatus := .downloading, download := (env.download.begin s.download).1 }
  have hrun : (onInbound env clock .establishmentAck504 s).1 = (onDownload env clock .orders
      { s with
        connectionStatus := .downloading, download := (env.download.begin s.download).1 }).1 := by
    rw [onInbound, setStatus, Command.andThen_of_none rfl, downloadBegin]
    simp only [Command.update, hcalls, List.map_cons, List.map_nil, Command.all]
    rw [Command.andThen]
    split
    · rfl
    · rfl
  rw [hrun]
  refine ⟨new, .acknowledged new ?_ h.tried hnew hplaced⟩
  rw [h.status]
  intro hready
  cases hready

theorem onInbound_change (hstages : env.download.Stages stage) (message : Inbound)
    (s : Session D) : ∃ new, Change stage s (onInbound env clock message s).1
      (Event.moments (.inbound message : Event Qp Qo)) new := by
  cases message with
  | establishmentAck504 => exact onEstablishmentAck504_change env clock hstages s
  | negotiationResponse501 =>
    obtain ⟨left, h, -⟩ := send_sends env clock (.establish
      { requestTimestamp := clock.realtime, uuid := s.uuid, session := s.config.login
        firmId := s.config.firmId, tradingSystemName := s.config.tradingSystemName
        tradingSystemVersion := s.config.tradingSystemVersion, tradingSystemVendor := "ROQ GMBH"
        nextSeqNo := s.orderEntry.peekNextSeqNum
        keepAliveInterval := keepAliveInterval / 1000000 }) s
    exact ⟨_, Sends.change_session h rfl⟩
  | executionReport value lastRptRequested =>
    rw [onInbound, Event.moments]
    split
    · by_cases hstage : stage s.download = .orders
      · obtain ⟨hdone, hcalls⟩ := hstages.advance s.download hstage
        refine ⟨[], .reported hstage ?_ ?_⟩
        · rw [downloadCheckRelaxed]
          simp only [hcalls, List.map_cons, List.map_nil, Command.all]
          exact hdone
        · rw [downloadCheckRelaxed]
          simp only [hcalls, List.map_cons, List.map_nil, Command.all]
          rfl
      · obtain ⟨hsame, hcalls⟩ := hstages.stay s.download hstage
        refine ⟨[], .quiet _ [] (by simp) ?_ ?_ ?_ (by simp)⟩
        · rw [downloadCheckRelaxed]
          simp only [hcalls, List.map_nil, Command.all]
          exact hsame
        · rw [downloadCheckRelaxed]
          simp only [hcalls, List.map_nil, Command.all]
          exact id
        · rw [downloadCheckRelaxed]
          simp only [hcalls, List.map_nil, Command.all]
          exact (List.append_nil _).symm
    · exact ⟨[], .silent s [] (by simp)⟩
  | _ => exact ⟨[], .silent s [] (by simp)⟩

/-- Every event is one of these changes. -/
theorem step_change (hstages : env.download.Stages stage) (event : Event Qp Qo) (s : Session D) :
    ∃ new, Change stage s (step env clock event s).1 event.moments new := by
  cases event with
  | timer refreshed => exact onTimer_change env clock refreshed s
  | connected => exact onConnected_change env clock s
  | disconnected =>
    refine ⟨[], .disconnected (hstages.reset s.download) ?_ rfl⟩
    intro hready
    cases hready
  | inbound message => exact onInbound_change env clock hstages message s
  | request sd request => exact onRequest_change env clock sd request s
  | cancelAllOrders => exact onCancelAllOrders_change env clock s

end Change

/-- The order status was requested in this part of the history, unless a message did not leave. -/
def StatusRequested (part : List Moment) : Prop :=
  (∃ value, .tried (.orderMassStatusRequest value) true ∈ part) ∨
    ∃ message, .tried message false ∈ part

/-- The exchange has acknowledged the session, and the order status was requested since. -/
def Acknowledged (history : List Moment) : Prop :=
  ∃ before part, history = before ++ .acknowledged :: part ∧ .disconnected ∉ part ∧
    StatusRequested part

/-- After that, the exchange has reported the last order. -/
def Synchronised (history : List Moment) : Prop :=
  ∃ before part after, history = before ++ .acknowledged :: (part ++ .reported :: after) ∧
    .disconnected ∉ part ∧ .disconnected ∉ after ∧ StatusRequested part

theorem Acknowledged.append {history recent : List Moment} (h : Acknowledged history)
    (hrecent : .disconnected ∉ recent) : Acknowledged (history ++ recent) := by
  obtain ⟨before, part, rfl, hpart, hrequested⟩ := h
  refine ⟨before, part ++ recent, by simp, ?_, ?_⟩
  · rw [List.mem_append]
    exact not_or.2 ⟨hpart, hrecent⟩
  · obtain ⟨value, hmem⟩ | ⟨message, hmem⟩ := hrequested
    · exact Or.inl ⟨value, List.mem_append_left _ hmem⟩
    · exact Or.inr ⟨message, List.mem_append_left _ hmem⟩

theorem Acknowledged.report {history : List Moment} (h : Acknowledged history) :
    Synchronised (history ++ [.reported]) := by
  obtain ⟨before, part, rfl, hpart, hrequested⟩ := h
  exact ⟨before, part, [], by simp, hpart, by simp, hrequested⟩

theorem Synchronised.append {history recent : List Moment} (h : Synchronised history)
    (hrecent : .disconnected ∉ recent) : Synchronised (history ++ recent) := by
  obtain ⟨before, part, after, rfl, hpart, hafter, hrequested⟩ := h
  refine ⟨before, part, after ++ recent, by simp, hpart, ?_, hrequested⟩
  rw [List.mem_append]
  exact not_or.2 ⟨hafter, hrecent⟩

/-- An order only leaves after this history. -/
def Allows (history : List Moment) (moment : Moment) : Prop :=
  ∀ message, moment = .tried message true → message.placesOrder = true → Synchronised history

/-- The invariant of a run. -/
structure Tracked (stage : D → State) (s : Session D) (history : List Moment) : Prop where
  acknowledged : stage s.download = .orders → Acknowledged history
  synchronised : s.connectionStatus = .ready → Synchronised history
  allowed : Each Allows history

theorem disconnected_notMem_moments (new : List (Sent × Bool)) :
    .disconnected ∉ new.map moment := by
  rw [List.mem_map]
  rintro ⟨p, -, hp⟩
  cases hp

/-- The moments of an event without a message of its own. -/
theorem allows_append {history moments : List Moment} {new : List (Sent × Bool)}
    (hmoments : ∀ m ∈ moments, ∀ message left, m ≠ .tried message left)
    (hnew : (∃ p ∈ new, p.1.placesOrder = true) → Synchronised history)
    (hquiet : .disconnected ∉ moments) :
    ∀ before m after, moments ++ new.map moment = before ++ m :: after →
      Allows (history ++ before) m := by
  intro before m after he message hm hplaced
  have hbarrier : .disconnected ∉ moments ++ new.map moment := by
    rw [List.mem_append]
    exact not_or.2 ⟨hquiet, disconnected_notMem_moments new⟩
  have hmem : m ∈ moments ++ new.map moment := by rw [he]; simp
  rw [List.mem_append] at hmem
  obtain hmem | hmem := hmem
  · exact absurd hm (hmoments m hmem message true)
  · rw [List.mem_map] at hmem
    obtain ⟨p, hp, rfl⟩ := hmem
    have hmessage : p.1 = message := (Moment.tried.inj hm).1
    refine (hnew ⟨p, hp, by rw [hmessage]; exact hplaced⟩).append ?_
    intro hb
    exact hbarrier (by rw [he]; exact List.mem_append_left _ hb)

theorem Tracked.change {stage : D → State} {s s' : Session D} {history moments : List Moment}
    {new : List (Sent × Bool)} (h : Tracked stage s history) (hc : Change stage s s' moments new)
    (hmoments : ∀ m ∈ moments, ∀ message left, m ≠ .tried message left) :
    Tracked stage s' (history ++ (moments ++ new.map moment)) := by
  cases hc with
  | disconnected hstage hstatus htried =>
    refine ⟨?_, fun hr => absurd hr hstatus, each_append h.allowed ?_⟩
    · rw [hstage]
      intro hfalse
      cases hfalse
    · intro before m after he message hm _
      have hmem : m ∈ [Moment.disconnected] ++ ([] : List (Sent × Bool)).map moment := by
        rw [he]
        simp
      rw [hm] at hmem
      simp at hmem
  | acknowledged new hstatus htried hnew hplaced =>
    refine ⟨?_, fun hr => absurd hr hstatus, each_append h.allowed (allows_append hmoments ?_ ?_)⟩
    · intro _
      refine ⟨history, new.map moment, rfl, disconnected_notMem_moments new, ?_⟩
      obtain ⟨value, hmem⟩ | ⟨message, hmem⟩ := hnew
      · exact Or.inl ⟨value, List.mem_map_of_mem hmem⟩
      · exact Or.inr ⟨message, List.mem_map_of_mem hmem⟩
    · rintro ⟨p, hp, hplaces⟩
      rw [hplaced p hp] at hplaces
      cases hplaces
    · simp
  | reported hbefore hafter htried =>
    refine ⟨?_, ?_, each_append h.allowed (allows_append hmoments (by simp) (by simp))⟩
    · rw [hafter]
      intro hfalse
      cases hfalse
    · intro _
      exact (h.acknowledged hbefore).report
  | quiet moments new hquiet hstage hstatus htried hplaced =>
    have hbarrier : .disconnected ∉ moments ++ new.map moment := by
      rw [List.mem_append]
      exact not_or.2 ⟨hquiet, disconnected_notMem_moments new⟩
    refine ⟨?_, ?_, each_append h.allowed (allows_append hmoments ?_ hquiet)⟩
    · rw [hstage]
      intro horders
      exact (h.acknowledged horders).append hbarrier
    · intro hready
      exact (h.synchronised (hstatus hready)).append hbarrier
    · rintro ⟨p, hp, hplaces⟩
      exact h.synchronised (hplaced p hp hplaces)

/-- The messages of a change are those that the session tried meanwhile. -/
theorem Change.new_eq {stage : D → State} {s s' : Session D} {moments : List Moment}
    {new : List (Sent × Bool)} (h : Change stage s s' moments new) :
    s'.tried.drop s.tried.length = new := by
  cases h with
  | disconnected hstage hstatus htried => rw [htried, List.drop_nil]
  | acknowledged new hstatus htried hnew hplaced => rw [htried, List.drop_left]
  | reported hbefore hafter htried => rw [htried, List.drop_length]
  | quiet moments new hquiet hstage hstatus htried hplaced => rw [htried, List.drop_left]

theorem Event.moments_ne_tried (event : Event Qp Qo) :
    ∀ m ∈ event.moments, ∀ message left, m ≠ .tried message left := by
  intro m hm message left
  cases event with
  | timer refreshed => cases hm
  | connected => rw [List.mem_singleton.1 hm]; exact nofun
  | disconnected => rw [List.mem_singleton.1 hm]; exact nofun
  | request sd request => cases hm
  | cancelAllOrders => cases hm
  | inbound inbound =>
    cases inbound with
    | establishmentAck504 => rw [List.mem_singleton.1 hm]; exact nofun
    | executionReport value lastRptRequested =>
      rw [Event.moments] at hm
      split at hm
      · rw [List.mem_singleton.1 hm]
        exact nofun
      · cases hm
    | _ => cases hm

section Run
variable {env : SessionEnv D} {stage : D → State}

theorem Tracked.observe (hstages : env.download.Stages stage) {st : Session D × List Moment}
    (h : Tracked stage st.1 st.2) (e : Clock × Event Qp Qo) :
    Tracked stage (observe env st e).1 (observe env st e).2 := by
  obtain ⟨new, hc⟩ := step_change env e.1 hstages e.2 st.1
  have hnext := h.change hc (Event.moments_ne_tried e.2)
  rw [← hc.new_eq] at hnext
  exact hnext

theorem observed_tracked (hstages : env.download.Stages stage) (config : Config)
    (events : List (Clock × Event Qp Qo)) :
    Tracked stage (observed env config events).1 (observed env config events).2 := by
  have hstart : Tracked stage (start env config) [] := by
    refine ⟨?_, nofun, each_nil _⟩
    intro horders
    rw [start, hstages.init] at horders
    cases horders
  have hfold : ∀ (events : List (Clock × Event Qp Qo)) (st : Session D × List Moment),
      Tracked stage st.1 st.2 → Tracked stage (events.foldl (Session.observe env) st).1
        (events.foldl (Session.observe env) st).2 := by
    intro events
    induction events with
    | nil =>
      intro st h
      exact h
    | cons e events ih =>
      intro st h
      exact ih _ (h.observe hstages e)
  exact hfold events _ hstart

/-- The connection is up. -/
def Up (history : List Moment) : Prop := Since .disconnected .connected history

/-- How a connection manager reports: a connection is made while there is none, and messages come in
while there is one. -/
def Orderly (history : List Moment) : Prop :=
  Each (fun past m => (m = .connected → ¬ Up past) ∧ (m = .acknowledged → Up past)) history

/-- Whenever an order leaves, the exchange has acknowledged the session, the order status was
requested after that, unless a message did not leave, and then the last order was reported, all
without a disconnect. If the connection was reported in order, all of this was on the current
connection. -/
theorem orders_leave_after_download (hstages : env.download.Stages stage) (config : Config)
    (events : List (Clock × Event Qp Qo)) (history later : List Moment) (message : Sent)
    (h : Session.history env config events = history ++ .tried message true :: later)
    (hplaces : message.placesOrder = true) :
    ∃ before part after, history = before ++ .acknowledged :: (part ++ .reported :: after) ∧
      .disconnected ∉ part ∧ .disconnected ∉ after ∧ StatusRequested part ∧
      (Orderly history → ∃ past since, before = past ++ .connected :: since ∧
        .disconnected ∉ since ∧ .connected ∉ since ++ (part ++ after)) := by
  have hsync : Synchronised history :=
    (observed_tracked hstages config events).allowed history _ later h message rfl hplaces
  obtain ⟨before, part, after, rfl, hpart, hafter, hrequested⟩ := hsync
  refine ⟨before, part, after, rfl, hpart, hafter, hrequested, ?_⟩
  intro horderly
  obtain ⟨past, since, rfl, hsince⟩ := (horderly before .acknowledged _ rfl).2 rfl
  refine ⟨past, since, rfl, hsince, ?_⟩
  have hrest : Each (fun past m => m = .connected → ¬ Up past)
      (past ++ .connected :: (since ++ .acknowledged :: (part ++ .reported :: after))) := by
    intro b m a he
    exact (horderly b m a (by rw [← he]; simp)).1
  have honce := Since.once hrest (by simp [hsince, hpart, hafter])
  intro hmem
  apply honce
  simp only [List.mem_append, List.mem_cons] at hmem ⊢
  tauto

end Run

/-- A login, then the cancellation of all orders. -/
theorem cancel_leaves_after_download :
    let events := Session.login Unit Unit 0 ++ [(⟨1, 1, 1⟩, .cancelAllOrders)]
    Synchronised (history SessionEnv.sample Config.sample events).dropLast := by
  intro events
  have hleft : history SessionEnv.sample Config.sample events =
      (history SessionEnv.sample Config.sample events).dropLast ++
        [.tried (.orderMassActionRequest ⟨0, 2, 4, "ACC", 1, "NY", 64⟩) true] := by
    decide +kernel
  obtain ⟨before, part, after, he, hpart, hafter, hrequested, -⟩ :=
    orders_leave_after_download Download2.staged_stages Config.sample events _ [] _ hleft rfl
  exact ⟨before, part, after, he, hpart, hafter, hrequested⟩

/-- Since the last connection was made, the session was acknowledged, then the order status was
requested, then the last order was reported. -/
def SynchronisedOnConnection (history : List Moment) : Prop :=
  ∃ past since part more after value, history = past ++ .connected :: (since ++ .acknowledged ::
      (part ++ .tried (.orderMassStatusRequest value) true :: (more ++ .reported :: after))) ∧
    ∀ m ∈ since ++ (part ++ (more ++ after)), m ≠ .connected ∧ m ≠ .disconnected

/-- A second `Connected` without a `Disconnected` leaves the download where it is: a report then
makes the session ready although the new connection was never acknowledged. -/
theorem order_leaves_unacknowledged :
    let events : List (Clock × Event Unit Unit) :=
      [.connected, .inbound .establishmentAck504, .connected,
        .inbound (.executionReport noWorkingOrders true), .cancelAllOrders].map
          fun event => (⟨0, 0, 0⟩, event)
    let before := (history SessionEnv.sample Config.sample events).dropLast
    history SessionEnv.sample Config.sample events =
        before ++ [.tried (.orderMassActionRequest ⟨0, 2, 4, "ACC", 0, "NY", 64⟩) true] ∧
      ¬ SynchronisedOnConnection before := by
  intro events before
  refine ⟨by decide +kernel, ?_⟩
  rintro ⟨past, since, part, more, after, value, he, hbetween⟩
  have hlast : before = before.take 5 ++ .connected :: before.drop 6 := by decide +kernel
  have hrest : Moment.connected ∉ before.drop 6 := by decide +kernel
  have hack : Moment.acknowledged ∉ before.drop 6 := by decide +kernel
  apply hack
  rw [rest_unique (hlast.symm.trans he) hrest]
  · simp
  · intro hmem
    simp only [List.mem_append, List.mem_cons, reduceCtorEq, false_or] at hmem
    refine (hbetween .connected ?_).1 rfl
    simp only [List.mem_append]
    tauto

end Session
end RoqCme.Gateway
