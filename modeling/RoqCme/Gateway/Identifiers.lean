import RoqCme.Gateway.Senders

/-! The identifiers that a session gives to its connections and to its own requests. The counter of
the requests goes on over a disconnect, and the uuid of a connection is the time at which it is
opened. -/
namespace RoqCme.Gateway
open RoqCme.Ilink RoqCme.MarketData RoqCme.Lib
variable {Qp Qo D : Type}

/-- The uuid under which a session is negotiated. -/
def Sent.negotiatedUuid : Sent → Option Nat
  | .negotiate value => some value.uuid
  | _ => none

/-- What a moment has in a field of its message. -/
def Moment.field (f : Sent → Option Nat) : Moment → Option Nat
  | .tried message _ => f message
  | _ => none

namespace Session

section Identifiers
variable {s t u : Session D}

/-- Since `s` the session has drawn the ids that follow its counter, and has not negotiated. -/
structure Draws (s t : Session D) : Prop where
  counter : s.requestId ≤ t.requestId
  tried : ∃ new, t.tried = s.tried ++ new ∧
    new.filterMap (fun p => p.1.drawnId) =
      List.range' (s.requestId + 1) (t.requestId - s.requestId) ∧
    new.filterMap (fun p => p.1.negotiatedUuid) = []

theorem Draws.refl (s : Session D) : Draws s s := ⟨le_rfl, [], by simp, by simp, rfl⟩

theorem Draws.congr (h : Draws s t) (htried : u.tried = t.tried)
    (hcounter : u.requestId = t.requestId) : Draws s u := by
  obtain ⟨hle, new, htried', hnew⟩ := h
  rw [← hcounter] at hle hnew
  exact ⟨hle, new, htried.trans htried', hnew⟩

variable (env : SessionEnv D) (clock : Clock)

theorem send_requestId (message : Sent) (s : Session D) :
    (send env clock message s).1.requestId = s.requestId := by
  unfold send
  split
  · rfl
  · rfl

theorem Draws.send (h : Draws s t) {message : Sent} (hdrawn : message.drawnId = none)
    (huuid : message.negotiatedUuid = none) : Draws s (Session.send env clock message t).1 := by
  obtain ⟨hle, new, htried, hnew, hnone⟩ := h
  obtain ⟨⟨left, hleft⟩, -⟩ := send_spec env clock message t
  rw [← send_requestId env clock message t] at hle hnew
  refine ⟨hle, new ++ [(message, left)], ?_, ?_, ?_⟩
  · rw [hleft, htried, List.append_assoc]
  · simp [hnew, hdrawn]
  · simp [hnone, huuid]

/-- A message that draws the next id. -/
theorem Draws.send_next (h : Draws s t) (msgSeqNum : Nat) {message : Sent}
    (hdrawn : message.drawnId = some (t.requestId + 1)) (huuid : message.negotiatedUuid = none) :
    Draws s (Session.send env clock message
      { t with requestId := t.requestId + 1, msgSeqNum := msgSeqNum }).1 := by
  obtain ⟨hle, new, htried, hnew, hnone⟩ := h
  let t' : Session D := { t with requestId := t.requestId + 1, msgSeqNum := msgSeqNum }
  obtain ⟨⟨left, hleft⟩, -⟩ := send_spec env clock message t'
  have hcounter : (Session.send env clock message t').1.requestId = t.requestId + 1 :=
    send_requestId env clock message t'
  refine ⟨?_, new ++ [(message, left)], ?_, ?_, ?_⟩
  · rw [hcounter]
    exact Nat.le_succ_of_le hle
  · rw [hleft, ← List.append_assoc, ← htried]
  · have hsub : t.requestId + 1 - s.requestId = t.requestId - s.requestId + 1 := by omega
    have hlast : s.requestId + 1 + (t.requestId - s.requestId) = t.requestId + 1 := by omega
    rw [hcounter, hsub, List.range'_concat, List.filterMap_append, hnew, Nat.one_mul, hlast]
    simp [hdrawn]
  · simp [hnone, huuid]

theorem draws_sending : Sending env clock (Draws s) where
  congr h _ _ hcounter htried := h.congr htried hcounter
  order t message h := h.send env clock rfl rfl
  request t message msgSeqNum h _ hdrawn := by
    refine h.send_next env clock msgSeqNum hdrawn ?_
    cases message with
    | negotiate value => cases hdrawn
    | _ => rfl

/-- Only a new connection negotiates. -/
theorem step_draws (event : Event Qp Qo) (hconnected : event ≠ .connected)
    (hquiet : event ≠ .disconnected) (s : Session D) : Draws s (step env clock event s).1 := by
  refine (draws_sending env clock).step ?_ ?_ event hconnected hquiet s (Draws.refl s)
  · exact fun t h => h.send env clock rfl rfl
  · exact fun t h => h.send env clock rfl rfl

end Identifiers

/-- The uuid of the connection that an event opens. -/
def openedUuid (e : Clock × Event Qp Qo) : Option Nat :=
  match e.2 with
  | .connected => some (e.1.realtime / 1000)
  | _ => none

section Run

theorem onConnected_tried (env : SessionEnv D) (clock : Clock) (s : Session D) :
    (∃ value left, (onConnected env clock s).1.tried = s.tried ++ [(.negotiate value, left)] ∧
      value.uuid = clock.realtime / 1000) ∧
    (onConnected env clock s).1.requestId = s.requestId := by
  let value : CanonicalMessage :=
    { requestTimestamp := clock.realtime, uuid := clock.realtime / 1000
      session := s.config.login, firmId := s.config.firmId }
  obtain ⟨left, hsends, -⟩ := send_sends env clock (.negotiate value)
    { s with uuid := clock.realtime / 1000 }
  have hcounter : (sendNegotiate env clock s).1.requestId = s.requestId :=
    send_requestId env clock _ _
  rw [onConnected]
  cases hend : (sendNegotiate env clock s).2 with
  | none =>
    rw [Command.andThen_of_none hend]
    exact ⟨⟨value, left, hsends.tried, rfl⟩, hcounter⟩
  | some e =>
    rw [Command.andThen_of_some hend]
    exact ⟨⟨value, left, hsends.tried, rfl⟩, hcounter⟩

variable {env : SessionEnv D}

/-- The invariant of a run: the ids drawn and the connections negotiated so far. -/
structure Identified (st : Session D × List Moment) (before : List (Clock × Event Qp Qo)) :
    Prop where
  drawn : st.2.filterMap (Moment.field Sent.drawnId) = List.range' 1 st.1.requestId
  negotiated : st.2.filterMap (Moment.field Sent.negotiatedUuid) = before.filterMap openedUuid

/-- The events of the connection carry no message. -/
theorem filterMap_moments (event : Event Qp Qo) (f : Sent → Option Nat) :
    event.moments.filterMap (Moment.field f) = [] := by
  rw [List.filterMap_eq_nil_iff]
  intro m hm
  cases m with
  | tried message left => exact absurd rfl (Event.moments_ne_tried event _ hm message left)
  | _ => rfl

theorem filterMap_tried (new : List (Sent × Bool)) (f : Sent → Option Nat) :
    (new.map moment).filterMap (Moment.field f) = new.filterMap fun p => f p.1 := by
  rw [List.filterMap_map]
  rfl

theorem Identified.observe {st : Session D × List Moment} {before : List (Clock × Event Qp Qo)}
    (h : Identified st before) (e : Clock × Event Qp Qo) :
    Identified (observe env st e) (before ++ [e]) := by
  obtain ⟨clock, event⟩ := e
  have hadd : ∀ new : List (Sent × Bool), (step env clock event st.1).1.tried.drop
      st.1.tried.length = new → ∀ f, (Session.observe env st (clock, event)).2.filterMap
        (Moment.field f) = st.2.filterMap (Moment.field f) ++ new.filterMap fun p => f p.1 := by
    intro new hnew f
    simp only [Session.observe, List.filterMap_append, filterMap_moments, filterMap_tried, hnew,
      List.nil_append]
  by_cases hconnected : event = .connected
  · subst hconnected
    obtain ⟨⟨value, left, htried, huuid⟩, hcounter⟩ := onConnected_tried env clock st.1
    have hnew := hadd [(.negotiate value, left)] (by simp [step, htried])
    constructor
    · rw [hnew, h.drawn]
      simp [Session.observe, step, hcounter, Sent.drawnId]
    · rw [hnew, h.negotiated, List.filterMap_append]
      simp [Sent.negotiatedUuid, openedUuid, huuid]
  · have hopened : (before ++ [(clock, event)]).filterMap openedUuid =
        before.filterMap openedUuid := by
      rw [List.filterMap_append]
      have hnone : openedUuid (clock, event) = none := by
        cases event with
        | connected => exact absurd rfl hconnected
        | _ => rfl
      simp [hnone]
    by_cases hquiet : event = .disconnected
    · -- the counter goes on over a disconnect
      subst hquiet
      have hnew := hadd [] (by simp [step, onDisconnected, Command.update])
      constructor
      · rw [hnew, h.drawn]
        exact List.append_nil _
      · rw [hnew, h.negotiated, hopened]
        exact List.append_nil _
    · obtain ⟨hcounter, new, htried, hdrawn, hnone⟩ :=
        step_draws env clock event hconnected hquiet st.1
      have hnew := hadd new (by rw [htried, List.drop_left])
      have hsum : (step env clock event st.1).1.requestId = st.1.requestId +
          ((step env clock event st.1).1.requestId - st.1.requestId) := by omega
      constructor
      · have hrange : List.range' 1 st.1.requestId ++ List.range' (st.1.requestId + 1)
            ((step env clock event st.1).1.requestId - st.1.requestId) =
              List.range' 1 (step env clock event st.1).1.requestId := by
          rw [Nat.add_comm st.1.requestId 1, List.range'_append_1, ← hsum]
        rw [hnew, h.drawn, hdrawn, hrange]
        rfl
      · rw [hnew, h.negotiated, hnone, hopened, List.append_nil]

end Run

/-- Over all connections of a run, the requests of the session carry the ids 1, 2, 3, ... in the
order in which they are made, and each connection negotiates once, under the microsecond in which
it was opened. -/
theorem identifiers_fresh (env : SessionEnv D) (config : Config)
    (events : List (Clock × Event Qp Qo)) :
    let history := history env config events
    history.filterMap (Moment.field Sent.drawnId) =
        List.range' 1 (runFrom env config events).requestId ∧
      history.filterMap (Moment.field Sent.negotiatedUuid) = events.filterMap openedUuid := by
  intro history
  have hfold : ∀ (rest : List (Clock × Event Qp Qo)) (before : List (Clock × Event Qp Qo))
      (st : Session D × List Moment), Identified st before →
        Identified (rest.foldl (observe env) st) (before ++ rest) := by
    intro rest
    induction rest with
    | nil =>
      intro before st h
      rw [List.append_nil]
      exact h
    | cons e rest ih =>
      intro before st h
      have hrest := ih (before ++ [e]) (observe env st e) (h.observe e)
      rw [List.append_assoc] at hrest
      exact hrest
  have h := hfold events [] (start env config, []) ⟨rfl, rfl⟩
  rw [← observed_session]
  exact ⟨h.drawn, h.negotiated⟩

end Session
end RoqCme.Gateway
