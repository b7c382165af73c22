import RoqCme.Gateway.Senders
import RoqCme.Lib.Unwinding

/-! The login of a session as the exchange sees it. The exchange answers what it has received: a
negotiation once, and an establishment that has left. Then every connection carries one
`Negotiate`, one `Establish` and only after these anything else, all under one uuid. -/
namespace RoqCme.Gateway
open RoqCme.Ilink RoqCme.MarketData RoqCme.Lib
variable {Qp Qo D : Type}

/-- A business message, or a heartbeat of the session. -/
def Sent.Traffic (uuid : Nat) (message : Sent) : Prop :=
  message.seqNum.isSome ∨ ∃ nextSeqNo, message = .sequence uuid nextSeqNo

def Sent.isNegotiate : Sent → Bool
  | .negotiate _ => true
  | _ => false

def Sent.isEstablish : Sent → Bool
  | .establish _ => true
  | _ => false

/-- What a connection carries. -/
inductive Login (uuid : Nat) : List Sent → Prop
  | idle : Login uuid []
  | negotiating (negotiate : CanonicalMessage) (hn : negotiate.uuid = uuid) :
      Login uuid [.negotiate negotiate]
  | established (negotiate establish : CanonicalMessage) (rest : List Sent)
      (hn : negotiate.uuid = uuid) (he : establish.uuid = uuid)
      (hrest : ∀ message ∈ rest, message.Traffic uuid) :
      Login uuid (.negotiate negotiate :: .establish establish :: rest)

namespace Session

/-- A connection is opened when there is none, and the exchange answers what has left: a
negotiation before any establishment, and an establishment. -/
def answered (s : Session D) : Event Qp Qo → Bool
  | .connected => s.tried.isEmpty
  | .inbound .negotiationResponse501 =>
    s.line.any Sent.isNegotiate && s.tried.all fun p => !p.1.isEstablish
  | .inbound .establishmentAck504 => s.line.any Sent.isEstablish
  | _ => true

/-- Before the exchange has acknowledged: at most a negotiation, and an establishment if it left. -/
structure Opening (stage : D → State) (s : Session D) : Prop where
  status : s.connectionStatus ≠ .ready
  stage : stage s.download = .undefined
  tried : s.tried = [] ∨
    (∃ negotiate left, s.tried = [(.negotiate negotiate, left)] ∧ negotiate.uuid = s.uuid) ∨
    ∃ negotiate establish left,
      s.tried = [(.negotiate negotiate, true), (.establish establish, left)] ∧
        negotiate.uuid = s.uuid ∧ establish.uuid = s.uuid

/-- Both have left, and everything after them is traffic. -/
def Open (s : Session D) : Prop :=
  ∃ negotiate establish rest,
    s.tried = (.negotiate negotiate, true) :: (.establish establish, true) :: rest ∧
      negotiate.uuid = s.uuid ∧ establish.uuid = s.uuid ∧ ∀ p ∈ rest, p.1.Traffic s.uuid

section Open
variable (env : SessionEnv D) (clock : Clock)

theorem Open.congr {s t : Session D} (h : s.Open) (htried : t.tried = s.tried)
    (huuid : t.uuid = s.uuid) : t.Open := by
  rw [Open, htried, huuid]
  exact h

theorem send_uuid (message : Sent) (s : Session D) :
    (send env clock message s).1.uuid = s.uuid := by
  unfold send
  split
  · rfl
  · rfl

theorem Open.send {s : Session D} (h : s.Open) {message : Sent} (hm : message.Traffic s.uuid) :
    (send env clock message s).1.Open := by
  obtain ⟨negotiate, establish, rest, htried, hn, he, hrest⟩ := h
  have huuid := send_uuid env clock message s
  obtain ⟨⟨left, hleft⟩, -⟩ := send_spec env clock message s
  refine ⟨negotiate, establish, rest ++ [(message, left)], ?_, hn.trans huuid.symm,
    he.trans huuid.symm, ?_⟩
  · rw [hleft, htried]
    rfl
  · intro p hp
    rw [huuid]
    cases List.mem_append.1 hp with
    | inl hp => exact hrest p hp
    | inr hp =>
      cases List.mem_singleton.1 hp
      exact hm

/-- Numbered messages do not need the uuid. -/
theorem open_sending : Sending env clock (Open (D := D)) where
  congr h _ huuid _ htried := h.congr htried huuid
  order s message h := h.send env clock (Or.inl rfl)
  request s message msgSeqNum h hnum _ := by
    have h' : ({ s with requestId := s.requestId + 1, msgSeqNum := msgSeqNum } : Session D).Open :=
      h.congr rfl rfl
    exact h'.send env clock (Or.inl hnum)

end Open

/-- Before or after the acknowledgement. -/
def LoggedIn (stage : D → State) (s : Session D) : Prop := s.Opening stage ∨ s.Open

section Step
variable {env : SessionEnv D} {stage : D → State} {s : Session D} (clock : Clock)

theorem Opening.not_ready (h : s.Opening stage) : s.ready = false := by
  simpa [ready] using h.status

theorem onConnected_opening (h : LoggedIn stage s)
    (hanswered : s.answered (.connected : Event Qp Qo) = true) :
    (onConnected env clock s).1.Opening stage := by
  have hnone : s.tried = [] := List.isEmpty_iff.1 hanswered
  have hs : s.Opening stage := by
    cases h with
    | inl h => exact h
    | inr h =>
      obtain ⟨negotiate, establish, rest, htried, -⟩ := h
      rw [htried] at hnone
      cases hnone
  let negotiate : CanonicalMessage :=
    { requestTimestamp := clock.realtime, uuid := clock.realtime / 1000
      session := s.config.login, firmId := s.config.firmId }
  obtain ⟨left, hsends, -⟩ := send_sends env clock (.negotiate negotiate)
    { s with uuid := clock.realtime / 1000 }
  have htried : (sendNegotiate env clock s).1.tried = [(.negotiate negotiate, left)] := by
    have h' : (sendNegotiate env clock s).1.tried = s.tried ++ [(.negotiate negotiate, left)] :=
      hsends.tried
    rw [h', hnone]
    rfl
  have huuid : (sendNegotiate env clock s).1.uuid = negotiate.uuid := send_uuid env clock _ _
  have hdownload : (sendNegotiate env clock s).1.download = s.download := hsends.download
  have hstage : stage (sendNegotiate env clock s).1.download = .undefined := by
    rw [hdownload]
    exact hs.stage
  rw [onConnected]
  cases hend : (sendNegotiate env clock s).2 with
  | none =>
    rw [Command.andThen_of_none hend]
    refine ⟨?_, hstage, Or.inr (Or.inl ⟨negotiate, left, htried, huuid.symm⟩)⟩
    intro hready
    cases hready
  | some e =>
    rw [Command.andThen_of_some hend]
    refine ⟨?_, hstage, Or.inr (Or.inl ⟨negotiate, left, htried, huuid.symm⟩)⟩
    have hstatus : (sendNegotiate env clock s).1.connectionStatus = s.connectionStatus :=
      hsends.status
    rw [hstatus]
    exact hs.status

theorem mem_line {s : Session D} {message : Sent} :
    message ∈ s.line ↔ (message, true) ∈ s.tried := by
  simp [line]

/-- The answer to a negotiation that left is the only establishment. -/
theorem onNegotiationResponse501_opening (h : LoggedIn stage s)
    (hanswered : s.answered (.inbound .negotiationResponse501 : Event Qp Qo) = true) :
    (onInbound env clock .negotiationResponse501 s).1.Opening stage := by
  simp only [answered, Bool.and_eq_true, List.any_eq_true, List.all_eq_true] at hanswered
  obtain ⟨⟨value, hvalue, hnegotiate⟩, hnone⟩ := hanswered
  rw [mem_line] at hvalue
  have hs : s.Opening stage ∧ ∃ negotiate, s.tried = [(.negotiate negotiate, true)] ∧
      negotiate.uuid = s.uuid := by
    cases h with
    | inr h =>
      obtain ⟨negotiate, establish, rest, htried, -⟩ := h
      have hno := hnone (.establish establish, true) (by rw [htried]; simp)
      cases hno
    | inl h =>
      obtain htried | ⟨negotiate, left, htried, huuid⟩ | ⟨negotiate, establish, left, htried, -⟩ :=
        h.tried
      · rw [htried] at hvalue
        cases hvalue
      · rw [htried, List.mem_singleton, Prod.mk.injEq] at hvalue
        obtain ⟨-, rfl⟩ := hvalue
        exact ⟨h, negotiate, htried, huuid⟩
      · have hno := hnone (.establish establish, left) (by rw [htried]; simp)
        cases hno
  obtain ⟨hs, negotiate, htried, huuid⟩ := hs
  let establish : CanonicalMessage :=
    { requestTimestamp := clock.realtime, uuid := s.uuid, session := s.config.login
      firmId := s.config.firmId, tradingSystemName := s.config.tradingSystemName
      tradingSystemVersion := s.config.tradingSystemVersion, tradingSystemVendor := "ROQ GMBH"
      nextSeqNo := s.orderEntry.peekNextSeqNum
      keepAliveInterval := keepAliveInterval / 1000000 }
  obtain ⟨left, hsends, -⟩ := send_sends env clock (.establish establish) s
  have hid := send_uuid env clock (.establish establish) s
  refine ⟨?_, ?_, Or.inr (Or.inr ⟨negotiate, establish, left, ?_, ?_, ?_⟩)⟩
  · have hstatus : (onInbound env clock .negotiationResponse501 s).1.connectionStatus =
        s.connectionStatus := hsends.status
    rw [hstatus]
    exact hs.status
  · have hdownload : (onInbound env clock .negotiationResponse501 s).1.download = s.download :=
      hsends.download
    rw [hdownload]
    exact hs.stage
  · have h' : (onInbound env clock .negotiationResponse501 s).1.tried =
        s.tried ++ [(.establish establish, left)] := hsends.tried
    rw [h', htried]
    rfl
  · exact huuid.trans hid.symm
  · exact hid.symm

/-- With the acknowledgement the connection is open. -/
theorem onEstablishmentAck504_open (h : LoggedIn stage s)
    (hanswered : s.answered (.inbound .establishmentAck504 : Event Qp Qo) = true) :
    (onInbound env clock .establishmentAck504 s).1.Open := by
  simp only [answered, List.any_eq_true] at hanswered
  obtain ⟨value, hvalue, hestablish⟩ := hanswered
  rw [mem_line] at hvalue
  have hs : s.Open := by
    cases h with
    | inr h => exact h
    | inl h =>
      obtain htried | ⟨negotiate, left, htried, huuid⟩ |
        ⟨negotiate, establish, left, htried, hn, he⟩ := h.tried
      · rw [htried] at hvalue
        cases hvalue
      · rw [htried, List.mem_singleton, Prod.mk.injEq] at hvalue
        rw [hvalue.1] at hestablish
        cases hestablish
      · rw [htried] at hvalue
        cases left with
        | false =>
          obtain rfl : value = .negotiate negotiate := by simpa using hvalue
          cases hestablish
        | true => exact ⟨negotiate, establish, [], htried, hn, he, by simp⟩
  exact (open_sending env clock).onEstablishmentAck504 s hs

/-- A report of the last order only ends a download that the exchange has begun. -/
theorem onExecutionReport_loggedIn (hstages : env.download.Stages stage) (h : LoggedIn stage s)
    (value : ExecutionReport) (lastRptRequested : Bool) :
    LoggedIn stage (onInbound env clock (.executionReport value lastRptRequested) s).1 := by
  cases h with
  | inr h => exact Or.inr ((open_sending env clock).onExecutionReport value lastRptRequested s h)
  | inl h =>
    simp only [onInbound]
    split
    · obtain ⟨hsame, hcalls⟩ := hstages.stay s.download (by rw [h.stage]; exact State.noConfusion)
      left
      simp only [downloadCheckRelaxed, hcalls, List.map_nil, Command.all]
      exact ⟨h.status, hsame.trans h.stage, h.tried⟩
    · exact Or.inl h

theorem onRequest_loggedIn (sd : SecurityDefinitions Qp Qo) (request : OrderEntry.Request)
    (h : LoggedIn stage s) : LoggedIn stage (onRequest env clock sd request s).1 := by
  cases h with
  | inl h =>
    -- a session that is not ready refuses the request
    have hready : s.orderEntry.ready = false := h.not_ready
    have hrefused : s.orderEntry.onRequest { env.order with now := clock.realtime } sd request =
        s.orderEntry.fail .notReady := by
      simp [OrderEntry.onRequest, hready]
    left
    simp only [onRequest, hrefused, OrderEntry.fail]
    exact h
  | inr h => exact Or.inr ((open_sending env clock).onRequest sd request s h)

theorem step_loggedIn (hstages : env.download.Stages stage) (event : Event Qp Qo)
    (h : LoggedIn stage s) (hanswered : s.answered event = true) :
    LoggedIn stage (step env clock event s).1 := by
  cases event with
  | connected => exact Or.inl (onConnected_opening clock h hanswered)
  | disconnected =>
    refine Or.inl ⟨?_, hstages.reset s.download, Or.inl rfl⟩
    intro hready
    cases hready
  | timer refreshed =>
    simp only [step, onTimer]
    split
    · next hbeat =>
      cases h with
      | inl h =>
        rw [h.not_ready] at hbeat
        simp at hbeat
      | inr h => exact Or.inr (h.send env clock (Or.inr ⟨_, rfl⟩))
    · exact h
  | request sd request => exact onRequest_loggedIn clock sd request h
  | cancelAllOrders =>
    cases h with
    | inl h =>
      left
      simp only [step, onCancelAllOrders, h.not_ready, Bool.false_eq_true, if_false]
      exact h
    | inr h => exact Or.inr ((open_sending env clock).onCancelAllOrders s h)
  | inbound message =>
    cases message with
    | negotiationResponse501 =>
      exact Or.inl (onNegotiationResponse501_opening clock h hanswered)
    | establishmentAck504 =>
      exact Or.inr (onEstablishmentAck504_open clock h hanswered)
    | executionReport value lastRptRequested =>
      exact onExecutionReport_loggedIn clock hstages h value lastRptRequested
    | _ => exact h

/-- What has left on the connection. -/
theorem LoggedIn.login (h : LoggedIn stage s) : Login s.uuid s.line := by
  have hline : s.line = (s.tried.filter Prod.snd).map Prod.fst := rfl
  cases h with
  | inl h =>
    obtain htried | ⟨negotiate, left, htried, hn⟩ |
      ⟨negotiate, establish, left, htried, hn, he⟩ := h.tried
    · rw [hline, htried]
      exact .idle
    · rw [hline, htried]
      cases left with
      | false => exact .idle
      | true => exact .negotiating negotiate hn
    · rw [hline, htried]
      cases left with
      | false => exact .negotiating negotiate hn
      | true => exact .established negotiate establish [] hn he (by simp)
  | inr h =>
    obtain ⟨negotiate, establish, rest, htried, hn, he, hrest⟩ := h
    rw [hline, htried]
    refine .established negotiate establish _ hn he ?_
    intro message hm
    obtain ⟨p, hp, rfl⟩ := List.mem_map.1 hm
    exact hrest p (List.mem_of_mem_filter hp)

end Step

/-- In every run in which the exchange only answers what has left, a connection carries one
`Negotiate`, then one `Establish`, and only then numbered messages and heartbeats, all under the
uuid of the connection; and a session that is ready has sent both. -/
theorem login_in_order (env : SessionEnv D) (config : Config) {stage : D → State}
    (hstages : env.download.Stages stage) (events : List (Clock × Event Qp Qo))
    (hanswered : Along (fun s e => (step env e.1 e.2 s).1) (fun s e => s.answered e.2 = true) events
      (start env config)) :
    let s := runFrom env config events
    Login s.uuid s.line ∧ (s.ready = true → ∃ negotiate establish rest,
      s.line = .negotiate negotiate :: .establish establish :: rest) := by
  intro s
  have hstart : LoggedIn stage (start env config) :=
    Or.inl ⟨ConnectionStatus.noConfusion, hstages.init, Or.inl rfl⟩
  have h : LoggedIn stage s := hanswered.run_inv (LoggedIn stage)
    (fun s e hs he => step_loggedIn e.1 hstages e.2 hs he) hstart
  refine ⟨h.login, ?_⟩
  intro hready
  cases h with
  | inl h =>
    rw [h.not_ready] at hready
    cases hready
  | inr h =>
    obtain ⟨negotiate, establish, rest, htried, -⟩ := h
    refine ⟨negotiate, establish, (rest.filter Prod.snd).map Prod.fst, ?_⟩
    rw [line, htried]
    rfl

/-- A login, an order and a second connection. -/
theorem login_in_order_reconnected :
    let events := Session.login Unit Unit 1000 ++
      [(⟨2000, 2000, 2000⟩, buyOne "A"), (⟨3000, 3000, 3000⟩, .disconnected)] ++
      Session.login Unit Unit 4000
    let s := runFrom SessionEnv.sample Config.sample events
    Login s.uuid s.line ∧ (s.ready = true → ∃ negotiate establish rest,
      s.line = .negotiate negotiate :: .establish establish :: rest) := by
  intro events s
  exact login_in_order SessionEnv.sample Config.sample Download2.staged_stages events
    (by decide +kernel)

end Session
end RoqCme.Gateway
