import RoqCme.Gateway.RequestIds

/-! Invariants of a session that look at its messages, its uuid and its counter of requests only.
They hold over a step if the messages that the step can send keep them. -/
namespace RoqCme.Gateway
open RoqCme.Ilink RoqCme.MarketData RoqCme.Lib
variable {Qp Qo D : Type}

namespace Session
variable (env : SessionEnv D) (clock : Clock)

/-- The invariant is kept by the messages of orders and by requests that draw the next id. -/
structure Sending (I : Session D → Prop) : Prop where
  congr : ∀ {s t : Session D}, I s → t.config = s.config → t.uuid = s.uuid →
    t.requestId = s.requestId → t.tried = s.tried → I t
  order : ∀ (s : Session D) (message : Outgoing), I s → I (send env clock (.order message) s).1
  request : ∀ (s : Session D) (message : Sent) (msgSeqNum : Nat), I s →
    message.seqNum.isSome → message.drawnId = some (s.requestId + 1) →
      I (send env clock message
        { s with requestId := s.requestId + 1, msgSeqNum := msgSeqNum }).1

namespace Sending
variable {env clock} {I : Session D → Prop}

theorem order_numbered (h : Sending env clock I) (message : Outgoing) (msgSeqNum : Nat)
    {s : Session D} (hs : I s) :
    I (send env clock (.order message) { s with msgSeqNum := msgSeqNum }).1 :=
  h.order _ message (h.congr hs rfl rfl rfl rfl)

theorem sendPartyDetails (h : Sending env clock I) :
    Command.Keeps I (Session.sendPartyDetails env clock) :=
  fun _ hs => h.order_numbered _ _ hs

theorem sendOrderMassStatusRequest (h : Sending env clock I) :
    Command.Keeps I (Session.sendOrderMassStatusRequest env clock) :=
  fun s hs => h.request s _ s.orderEntry.fetchNextSeqNum.2.msgSeqNum hs rfl rfl

theorem sendOrderMassActionRequest (h : Sending env clock I) :
    Command.Keeps I (Session.sendOrderMassActionRequest env clock) := by
  refine h.sendPartyDetails.andThen ?_
  exact fun s hs => h.request s _ s.orderEntry.fetchNextSeqNum.2.msgSeqNum hs rfl rfl

theorem sendOrders (h : Sending env clock I) (messages : List Outgoing) :
    Command.Keeps I (Session.sendOrders env clock messages) := by
  induction messages with
  | nil => exact Command.keeps_skip
  | cons message rest ih =>
    refine Command.Keeps.andThen ?_ ih
    exact fun s hs => h.order_numbered message message.seqNum hs

theorem setStatus (h : Sending env clock I) (status : ConnectionStatus) :
    Command.Keeps I (Session.setStatus status) :=
  Command.keeps_update fun _ hs => h.congr hs rfl rfl rfl rfl

theorem onDownloads (h : Sending env clock I) (states : List State) :
    Command.Keeps I (Command.all (states.map (onDownload env clock))) := by
  apply Command.keeps_all
  intro c hc
  obtain ⟨state, -, rfl⟩ := List.mem_map.1 hc
  cases state with
  | undefined => exact Command.keeps_skip
  | orders => exact h.sendPartyDetails.andThen h.sendOrderMassStatusRequest
  | done => exact h.setStatus .ready

theorem onEstablishmentAck504 (h : Sending env clock I) :
    Command.Keeps I (onInbound env clock .establishmentAck504) := by
  refine (h.setStatus .downloading).andThen ?_
  exact fun s hs => h.onDownloads _ _ (h.congr hs rfl rfl rfl rfl)

theorem onExecutionReport (h : Sending env clock I) (value : ExecutionReport)
    (lastRptRequested : Bool) :
    Command.Keeps I (onInbound env clock (.executionReport value lastRptRequested)) := by
  simp only [onInbound]
  split
  · exact fun s hs => h.onDownloads _ _ (h.congr hs rfl rfl rfl rfl)
  · exact Command.keeps_skip

theorem onRequest (h : Sending env clock I) (sd : SecurityDefinitions Qp Qo)
    (request : OrderEntry.Request) : Command.Keeps I (Session.onRequest env clock sd request) := by
  intro s hs
  simp only [Session.onRequest]
  split
  · exact hs
  · exact h.sendOrders _ _ hs

theorem onCancelAllOrders (h : Sending env clock I) :
    Command.Keeps I (Session.onCancelAllOrders env clock) := by
  intro s hs
  simp only [Session.onCancelAllOrders]
  split
  · exact h.sendOrderMassActionRequest s hs
  · exact hs

/-- A step on a connection, apart from its first message: the messages of the session itself are
looked at one by one. -/
theorem step (h : Sending env clock I)
    (hestablish : Command.Keeps I (sendEstablish env clock))
    (hsequence : Command.Keeps I (sendSequence env clock)) (event : Event Qp Qo)
    (hconnected : event ≠ .connected) (hdisconnected : event ≠ .disconnected) :
    Command.Keeps I (Session.step env clock event) := by
  cases event with
  | timer refreshed =>
    intro s hs
    simp only [Session.step, onTimer]
    split
    · exact hsequence s hs
    · exact hs
  | connected => exact absurd rfl hconnected
  | disconnected => exact absurd rfl hdisconnected
  | request sd request => exact h.onRequest sd request
  | cancelAllOrders => exact h.onCancelAllOrders
  | inbound message =>
    cases message with
    | negotiationResponse501 => exact hestablish
    | establishmentAck504 => exact h.onEstablishmentAck504
    | executionReport value lastRptRequested => exact h.onExecutionReport value lastRptRequested
    | _ => exact Command.keeps_skip

end Sending
end Session
end RoqCme.Gateway
