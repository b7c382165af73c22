import RoqCme.Gateway.Session
import RoqCme.Lib.Numbering

/-! The sequence numbers of a session. Every business message that is tried takes the next number,
and every announcement gives it; whether a message leaves makes no difference to the counter. -/
namespace RoqCme.Gateway
open RoqCme.Ilink RoqCme.MarketData RoqCme.Lib
variable {Qp Qo D : Type}

theorem Sent.nextSeqNo_of_seqNum {message : Sent} {n : Nat} (h : message.seqNum = some n) :
    message.nextSeqNo = none := by
  cases message with
  | negotiate | establish | sequence => cases h
  | order | orderMassStatusRequest | orderMassActionRequest => rfl

/-- The numbers go on from `last`. -/
def Follow : Nat → List Outgoing → Prop
  | _, [] => True
  | last, message :: rest => message.seqNum = (last + 1) % maxSeqNum ∧ Follow message.seqNum rest

theorem OrderEntry.sendOrder_follow (e : OrderEntry) {message : Nat → Outgoing}
    (h : ∀ n, (message n).seqNum = n) : Follow e.msgSeqNum (e.sendOrder message).sent := by
  refine ⟨rfl, ?_, trivial⟩
  rw [h]
  rfl

/-- A request is refused with the state as it was, or leads to one message after that of the party
details. -/
theorem OrderEntry.onRequest_cases (env : OrderEnv) (sd : SecurityDefinitions Qp Qo)
    (e : OrderEntry) (request : Request) :
    (∃ failure, e.onRequest env sd request = e.fail failure) ∨
      ∃ message : Nat → Outgoing, (∀ n, (message n).seqNum = n ∧
          (message n).orderRequestId = some request.orderRequestId) ∧
        e.onRequest env sd request = e.sendOrder message := by
  unfold onRequest
  split
  · cases request with
    | create createOrder order requestId =>
      simp only [sendNewOrderSingle]
      split
      · exact Or.inl ⟨_, rfl⟩
      · split
        · exact Or.inl ⟨_, rfl⟩
        · split
          · exact Or.inl ⟨_, rfl⟩
          · split
            · exact Or.inl ⟨_, rfl⟩
            · split
              · exact Or.inl ⟨_, rfl⟩
              · exact Or.inr ⟨_, fun _ => ⟨rfl, rfl⟩, rfl⟩
    | modify modifyOrder order =>
      simp only [sendOrderCancelReplaceRequest]
      split
      · exact Or.inl ⟨_, rfl⟩
      · split
        · exact Or.inl ⟨_, rfl⟩
        · exact Or.inr ⟨_, fun _ => ⟨rfl, rfl⟩, rfl⟩
    | cancel order =>
      simp only [sendOrderCancelRequest]
      split
      · exact Or.inl ⟨_, rfl⟩
      · exact Or.inr ⟨_, fun _ => ⟨rfl, rfl⟩, rfl⟩
  · exact Or.inl ⟨_, rfl⟩

namespace Session
variable (env : SessionEnv D) (clock : Clock)

/-- What a message does to the session: it is tried, whether or not it leaves. -/
theorem send_spec (message : Sent) (s : Session D) :
    (∃ left, (send env clock message s).1.tried = s.tried ++ [(message, left)]) ∧
      (send env clock message s).1.msgSeqNum = s.msgSeqNum := by
  unfold send
  split
  · exact ⟨⟨_, rfl⟩, rfl⟩
  · exact ⟨⟨_, rfl⟩, rfl⟩

/-- The messages tried on the current connection. -/
def messages (s : Session D) : List Sent := s.tried.map Prod.fst

/-- The counter stands at the number of the last business message tried. -/
structure Counted (s : Session D) : Prop where
  numbered : Numbered Sent.seqNum Sent.nextSeqNo maxSeqNum s.messages
  counter : s.msgSeqNum = issued Sent.seqNum s.messages % maxSeqNum

variable {env clock} {s t : Session D}

theorem Counted.congr (h : Counted s) (htried : t.tried = s.tried)
    (hnum : t.msgSeqNum = s.msgSeqNum) : Counted t := by
  have hmessages : t.messages = s.messages := by rw [messages, htried, messages]
  exact ⟨by rw [hmessages]; exact h.numbered, by rw [hnum, hmessages]; exact h.counter⟩

theorem Counted.peek (h : Counted s) :
    s.orderEntry.peekNextSeqNum = (issued Sent.seqNum s.messages + 1) % maxSeqNum := by
  have hnext : s.orderEntry.peekNextSeqNum = (s.msgSeqNum + 1) % maxSeqNum := rfl
  rw [hnext, h.counter, Nat.mod_add_mod]

theorem send_messages (message : Sent) (s : Session D) :
    (send env clock message s).1.messages = s.messages ++ [message] := by
  obtain ⟨⟨left, h⟩, -⟩ := send_spec env clock message s
  rw [messages, h, List.map_append]
  rfl

/-- A session message announces the next number and leaves the counter alone. -/
theorem Counted.send_session (h : Counted s) {message : Sent} (hnone : message.seqNum = none)
    (hnext : ∀ n, message.nextSeqNo = some n → n = s.orderEntry.peekNextSeqNum) :
    Counted (send env clock message s).1 := by
  constructor
  · rw [send_messages, numbered_concat]
    refine ⟨h.numbered, ?_⟩
    rintro n (hn | hn)
    · rw [hnone] at hn
      cases hn
    · rw [hnext n hn, h.peek]
  · rw [send_messages, issued_append, (send_spec env clock message s).2, h.counter]
    simp [issued, hnone]

/-- A business message carries the number that was just fetched. -/
theorem Counted.send_business (h : Counted s) {message : Sent}
    (hnum : message.seqNum = some s.orderEntry.peekNextSeqNum) (htried : t.tried = s.tried)
    (hfetch : t.msgSeqNum = s.orderEntry.peekNextSeqNum) :
    Counted (send env clock message t).1 := by
  have hmessages : t.messages = s.messages := by rw [messages, htried, messages]
  constructor
  · rw [send_messages, hmessages, numbered_concat]
    refine ⟨h.numbered, ?_⟩
    rintro n (hn | hn)
    · rw [hnum] at hn
      cases hn
      exact h.peek
    · rw [Sent.nextSeqNo_of_seqNum hnum] at hn
      cases hn
  · rw [send_messages, hmessages, issued_append, (send_spec env clock message t).2, hfetch, h.peek]
    simp [issued, hnum]

variable (env clock)

theorem sendNegotiate_keeps : Command.Keeps Counted (sendNegotiate env clock) := by
  intro s h
  have huuid : Counted { s with uuid := clock.realtime / 1000 } := h.congr rfl rfl
  refine huuid.send_session rfl ?_
  intro n hn
  cases hn

theorem sendEstablish_keeps : Command.Keeps Counted (sendEstablish env clock) := by
  intro s h
  refine h.send_session rfl ?_
  intro n hn
  cases hn
  rfl

theorem sendSequence_keeps : Command.Keeps Counted (sendSequence env clock) := by
  intro s h
  refine h.send_session rfl ?_
  intro n hn
  cases hn
  rfl

theorem setStatus_keeps (status : ConnectionStatus) :
    Command.Keeps Counted (setStatus status : Action D) :=
  Command.keeps_update fun _ h => h.congr rfl rfl

theorem sendPartyDetails_keeps : Command.Keeps Counted (sendPartyDetails env clock) := by
  intro s h
  exact h.send_business rfl rfl rfl

theorem sendOrderMassStatusRequest_keeps :
    Command.Keeps Counted (sendOrderMassStatusRequest env clock) := by
  intro s h
  exact h.send_business rfl rfl rfl

theorem sendOrderMassActionRequest_keeps :
    Command.Keeps Counted (sendOrderMassActionRequest env clock) := by
  refine (sendPartyDetails_keeps env clock).andThen ?_
  intro s h
  exact h.send_business rfl rfl rfl

/-- Messages that took consecutive numbers are tried with them. -/
theorem sendOrders_counted (messages : List Outgoing) (last : Nat) (hf : Follow last messages) :
    Command.Triple (fun s => Counted s ∧ s.msgSeqNum = last) (sendOrders env clock messages)
      Counted := by
  induction messages generalizing last with
  | nil =>
    intro s h
    exact h.1
  | cons message rest ih =>
    obtain ⟨hnum, hrest⟩ := hf
    refine Command.Triple.andThen (I := fun s => Counted s ∧ s.msgSeqNum = message.seqNum) ?_
      (ih message.seqNum hrest) (fun _ h => h.1)
    rintro s ⟨h, rfl⟩
    refine ⟨h.send_business (congrArg some hnum) rfl hnum, ?_⟩
    exact (send_spec env clock _ _).2

theorem onRequest_keeps (sd : SecurityDefinitions Qp Qo) (request : OrderEntry.Request) :
    Command.Keeps Counted (onRequest env clock sd request) := by
  intro s h
  simp only [onRequest]
  obtain ⟨failure, hr⟩ | ⟨message, hm, hr⟩ := OrderEntry.onRequest_cases
    { env.order with now := clock.realtime } sd s.orderEntry request
  · rw [hr]
    exact h
  · rw [hr]
    exact sendOrders_counted env clock _ s.msgSeqNum
      (s.orderEntry.sendOrder_follow fun n => (hm n).1) s ⟨h, rfl⟩

theorem onDownload_keeps (state : State) : Command.Keeps Counted (onDownload env clock state) := by
  cases state with
  | undefined => exact Command.keeps_skip
  | orders =>
    exact (sendPartyDetails_keeps env clock).andThen (sendOrderMassStatusRequest_keeps env clock)
  | done => exact setStatus_keeps .ready

theorem onDownloads_keeps (states : List State) :
    Command.Keeps Counted (Command.all (states.map (onDownload env clock))) := by
  apply Command.keeps_all
  intro c hc
  obtain ⟨state, -, rfl⟩ := List.mem_map.1 hc
  exact onDownload_keeps env clock state

theorem onInbound_keeps (message : Inbound) :
    Command.Keeps Counted (onInbound env clock message) := by
  cases message with
  | negotiationResponse501 => exact sendEstablish_keeps env clock
  | establishmentAck504 =>
    refine (setStatus_keeps .downloading).andThen ?_
    intro s h
    exact onDownloads_keeps env clock _ _ (h.congr rfl rfl)
  | executionReport value lastRptRequested =>
    simp only [onInbound]
    split
    · intro s h
      exact onDownloads_keeps env clock _ _ (h.congr rfl rfl)
    · exact Command.keeps_skip
  | _ => exact Command.keeps_skip

/-- No event takes the counter off the messages of the connection. -/
theorem step_keeps (event : Event Qp Qo) : Command.Keeps Counted (step env clock event) := by
  cases event with
  | timer refreshed =>
    intro s h
    simp only [step, onTimer]
    split
    · exact sendSequence_keeps env clock s h
    · exact h
  | connected => exact (sendNegotiate_keeps env clock).andThen (setStatus_keeps .loginSent)
  | disconnected => exact Command.keeps_update fun _ _ => ⟨numbered_nil _ _ _, rfl⟩
  | inbound message => exact onInbound_keeps env clock message
  | request sd request => exact onRequest_keeps env clock sd request
  | cancelAllOrders =>
    intro s h
    simp only [step, onCancelAllOrders]
    split
    · exact sendOrderMassActionRequest_keeps env clock s h
    · exact h

theorem runFrom_counted (config : Config) (events : List (Clock × Event Qp Qo)) :
    Counted (runFrom env config events) := by
  have hstart : Counted (start env config) := ⟨numbered_nil _ _ _, rfl⟩
  exact Command.Keeps.run (fun e : Clock × Event Qp Qo => step_keeps env e.1 e.2) events hstart

/-- Every message tried on the current connection has left. -/
def AllLeft (s : Session D) : Prop := ∀ p ∈ s.tried, p.2 = true

/-- Every business message tried on the current connection has left. -/
def BusinessLeft (s : Session D) : Prop := ∀ p ∈ s.tried, p.1.seqNum.isSome → p.2 = true

instance (s : Session D) : Decidable s.AllLeft :=
  inferInstanceAs (Decidable (∀ p ∈ s.tried, p.2 = true))

instance (s : Session D) : Decidable s.BusinessLeft :=
  inferInstanceAs (Decidable (∀ p ∈ s.tried, p.1.seqNum.isSome → p.2 = true))

theorem AllLeft.line_eq {s : Session D} (h : s.AllLeft) : s.line = s.messages := by
  rw [line, List.filter_eq_self.2 h, messages]

/-- On every connection of every run on which all messages leave, the business messages count up
from one, and what is announced is the number of the next one. -/
theorem announced_numbers_match (config : Config) (events : List (Clock × Event Qp Qo))
    (h : (runFrom env config events).AllLeft) :
    let line := (runFrom env config events).line
    line.filterMap Sent.seqNum =
        (List.range (issued Sent.seqNum line)).map (fun i => (i + 1) % maxSeqNum) ∧
      ∀ before message after n, line = before ++ message :: after → message.nextSeqNo = some n →
        n = (issued Sent.seqNum before + 1) % maxSeqNum ∧
          ∀ k ∈ (after.filterMap Sent.seqNum).head?, k = n := by
  intro line
  have hnum : Numbered Sent.seqNum Sent.nextSeqNo maxSeqNum line := by
    have hline : line = (runFrom env config events).messages := h.line_eq
    rw [hline]
    exact (runFrom_counted env config events).numbered
  refine ⟨hnum.own_eq, ?_⟩
  intro before message after n hline hnext
  have hown : message.seqNum = none := by
    cases message with
    | negotiate | establish | sequence => rfl
    | order | orderMassStatusRequest | orderMassActionRequest => cases hnext
  exact ⟨hnum before message after hline n (Or.inr hnext), hnum.announced_next hline hnext hown⟩

/-- A login, a heartbeat and the cancellation of all orders. -/
theorem announced_numbers_match_after_login :
    let events := Session.login Unit Unit 0 ++
      [(⟨1, 1, 1⟩, .timer true), (⟨2, 2, 2⟩, .cancelAllOrders)]
    let line := (runFrom SessionEnv.sample Config.sample events).line
    line.filterMap Sent.seqNum =
        (List.range (issued Sent.seqNum line)).map (fun i => (i + 1) % maxSeqNum) ∧
      line.filterMap Sent.seqNum = [1, 2, 3, 4] ∧ line.filterMap Sent.nextSeqNo = [1, 3] := by
  intro events line
  have h := announced_numbers_match SessionEnv.sample Config.sample events (by decide +kernel)
  exact ⟨h.1, by decide +kernel⟩

/-- The numbers on the wire are 1, 2, 3 and so on, and the counter stands at the last of them. -/
structure GapFree (s : Session D) : Prop where
  numbers : s.line.filterMap Sent.seqNum = List.range' 1 (issued Sent.seqNum s.line)
  counter : s.msgSeqNum = issued Sent.seqNum s.line

theorem line_sublist (s : Session D) :
    (s.line.filterMap Sent.seqNum).Sublist (s.messages.filterMap Sent.seqNum) :=
  ((List.filter_sublist).map Prod.fst).filterMap Sent.seqNum

/-- As many numbers on the wire as taken: no business message was lost. -/
theorem issued_line_eq_iff (s : Session D) :
    issued Sent.seqNum s.line = issued Sent.seqNum s.messages ↔ s.BusinessLeft := by
  unfold BusinessLeft line messages
  induction s.tried with
  | nil => simp
  | cons p tried ih =>
    have hle : issued Sent.seqNum ((tried.filter Prod.snd).map Prod.fst) ≤
        issued Sent.seqNum (tried.map Prod.fst) :=
      (((List.filter_sublist).map Prod.fst).filterMap Sent.seqNum).length_le
    obtain ⟨message, left⟩ := p
    cases left with
    | true =>
      rw [List.filter_cons_of_pos rfl, List.map_cons, List.map_cons, ← List.singleton_append,
        ← List.singleton_append (l := tried.map Prod.fst), issued_append, issued_append,
        Nat.add_left_cancel_iff, ih]
      simp
    | false =>
      rw [List.filter_cons_of_neg (by simp), List.map_cons, ← List.singleton_append, issued_append]
      cases hm : message.seqNum with
      | none =>
        have hzero : issued Sent.seqNum [message] = 0 := by simp [issued, hm]
        rw [hzero, Nat.zero_add, ih]
        simp [hm]
      | some n =>
        have hone : issued Sent.seqNum [message] = 1 := by simp [issued, hm]
        rw [hone]
        refine iff_of_false (by omega) ?_
        intro h
        have hlost := h (message, false) (by simp) (by rw [hm]; rfl)
        cases hlost

/-- In every state that a run reaches, and unless a billion business messages were tried and some
of them lost: the numbers on the wire have no gap exactly when each business message tried has left
and they are fewer than a billion. -/
theorem wire_numbers_without_gap_iff (config : Config) (events : List (Clock × Event Qp Qo))
    (h : issued Sent.seqNum (runFrom env config events).messages < maxSeqNum ∨
      (runFrom env config events).BusinessLeft) :
    (runFrom env config events).GapFree ↔
      issued Sent.seqNum (runFrom env config events).messages < maxSeqNum ∧
        (runFrom env config events).BusinessLeft := by
  obtain ⟨hnum, hcounter⟩ := runFrom_counted env config events
  rw [← issued_line_eq_iff] at h ⊢
  constructor
  · intro hgap
    rw [hgap.counter] at hcounter
    obtain hfew | hleft := h
    · rw [Nat.mod_eq_of_lt hfew] at hcounter
      exact ⟨hfew, hcounter⟩
    · rw [hleft] at hcounter
      refine ⟨?_, hleft⟩
      rw [hcounter]
      exact Nat.mod_lt _ (by decide)
  · rintro ⟨hfew, hleft⟩
    have hline := (line_sublist (runFrom env config events)).eq_of_length hleft
    refine ⟨?_, ?_⟩
    · rw [hline, hnum.own_eq, hleft, List.range'_eq_map_range]
      apply List.map_congr_left
      intro i hi
      rw [List.mem_range] at hi
      rw [Nat.mod_eq_of_lt (by omega), Nat.add_comm]
    · rw [hcounter, hleft, Nat.mod_eq_of_lt hfew]

/-- A request of a client for one contract under this client order id. -/
def buyOne (requestId : String) : Event Unit Unit :=
  .request (SecurityDefinitions.load (fun _ => false) () () [SecDef.sample 7 "ESZ5"])
    (.create ⟨"CME", .buy, .limit, .gfd, [], some 1, some 5000, none⟩
      ⟨"ESZ5", .buy, .limit, .gfd, 1, 1, ""⟩ requestId)

theorem wire_numbers_without_gap_after_order :
    let events := Session.login Unit Unit 0 ++ [(⟨1, 1, 1⟩, buyOne "1")]
    (runFrom SessionEnv.sample Config.sample events).GapFree := by
  intro events
  have hfew : issued Sent.seqNum (runFrom SessionEnv.sample Config.sample events).messages <
      maxSeqNum := by
    decide +kernel
  have hleft : (runFrom SessionEnv.sample Config.sample events).BusinessLeft := by
    decide +kernel
  exact (wire_numbers_without_gap_iff SessionEnv.sample Config.sample events (Or.inl hfew)).2
    ⟨hfew, hleft⟩

/-- A client order id of 21 characters does not fit: the order takes number 4 and throws. The next
order goes out as 5 and 6. -/
theorem number_lost_with_order :
    let s := runFrom SessionEnv.sample Config.sample (Session.login Unit Unit 0 ++
      [(⟨1, 1, 1⟩, buyOne "123456789012345678901"), (⟨2, 2, 2⟩, buyOne "2")])
    s.line.filterMap Sent.seqNum = [1, 2, 3, 5, 6] ∧ ¬ s.GapFree := by
  intro s
  have hline : s.line.filterMap Sent.seqNum = [1, 2, 3, 5, 6] := by decide +kernel
  refine ⟨hline, ?_⟩
  intro h
  have hnumbers := h.numbers
  rw [issued, hline] at hnumbers
  revert hnumbers
  decide

end Session
end RoqCme.Gateway
