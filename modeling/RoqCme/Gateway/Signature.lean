import RoqCme.Gateway.Identifiers

/-! The text that the signature of a login message covers (`tools/crypto`): the fields of the
canonical message, one to a line. The lines of the trading system are left out of a `Negotiate`,
which has none. -/
namespace RoqCme.Gateway
open RoqCme.Ilink RoqCme.MarketData RoqCme.Lib
variable {Qp Qo D : Type}

namespace CanonicalMessage

/-- What `Crypto::create_signature` writes to its buffer before it computes the code. -/
def signedText (m : CanonicalMessage) : List Char :=
  (toString m.requestTimestamp).toList ++ '\n' :: ((toString m.uuid).toList ++
    '\n' :: (m.session.toList ++ '\n' :: (m.firmId.toList ++
      if m.tradingSystemName = "" then []
      else '\n' :: (m.tradingSystemName.toList ++ '\n' :: (m.tradingSystemVersion.toList ++
        '\n' :: (m.tradingSystemVendor.toList ++ '\n' :: ((toString m.nextSeqNo).toList ++
          '\n' :: (toString m.keepAliveInterval).toList)))))))

/-- The lines of the text. -/
def lines (m : CanonicalMessage) : List (List Char) :=
  [(toString m.requestTimestamp).toList, (toString m.uuid).toList, m.session.toList,
    m.firmId.toList] ++
  if m.tradingSystemName = "" then []
  else
    [m.tradingSystemName.toList, m.tradingSystemVersion.toList, m.tradingSystemVendor.toList,
      (toString m.nextSeqNo).toList, (toString m.keepAliveInterval).toList]

/-- No text of the message contains a line break. -/
structure SingleLine (m : CanonicalMessage) : Prop where
  session : '\n' ∉ m.session.toList
  firmId : '\n' ∉ m.firmId.toList
  tradingSystemName : '\n' ∉ m.tradingSystemName.toList
  tradingSystemVersion : '\n' ∉ m.tradingSystemVersion.toList
  tradingSystemVendor : '\n' ∉ m.tradingSystemVendor.toList

/-- A message with a trading system, or with nothing about it. -/
def Regular (m : CanonicalMessage) : Prop :=
  m.tradingSystemName = "" → m.tradingSystemVersion = "" ∧ m.tradingSystemVendor = "" ∧
    m.nextSeqNo = 0 ∧ m.keepAliveInterval = 0

theorem signedText_eq (m : CanonicalMessage) : m.signedText = ['\n'].intercalate m.lines := by
  unfold signedText lines
  split
  · simp [List.intercalate]
  · simp [List.intercalate]

theorem newline_notMem_toString (n : Nat) : '\n' ∉ (toString n).toList := by
  intro h
  have hdigit : ('\n').isDigit = true := by
    refine Nat.isDigit_of_mem_toDigits (b := 10) (n := n) (by omega) (by omega) ?_
    simpa using h
  revert hdigit
  decide

theorem toString_toList_injective {n m : Nat} (h : (toString n).toList = (toString m).toList) :
    n = m := by
  have hdigits : ∀ k : Nat, Nat.ofDigitChars 10 (toString k).toList 0 = k := by
    intro k
    have hk : (toString k).toList = Nat.toDigits 10 k := by simp
    rw [hk, Nat.ofDigitChars_ten_toDigits]
  rw [← hdigits n, ← hdigits m, h]

theorem SingleLine.notMem {m : CanonicalMessage} (h : m.SingleLine) :
    ∀ line ∈ m.lines, '\n' ∉ line := by
  have hfirst : ∀ line ∈ [(toString m.requestTimestamp).toList, (toString m.uuid).toList,
      m.session.toList, m.firmId.toList], '\n' ∉ line := by
    simp only [List.forall_mem_cons, List.not_mem_nil, false_imp_iff, implies_true, and_true]
    exact ⟨newline_notMem_toString _, newline_notMem_toString _, h.session, h.firmId⟩
  have hsecond : ∀ line ∈ [m.tradingSystemName.toList, m.tradingSystemVersion.toList,
      m.tradingSystemVendor.toList, (toString m.nextSeqNo).toList,
      (toString m.keepAliveInterval).toList], '\n' ∉ line := by
    simp only [List.forall_mem_cons, List.not_mem_nil, false_imp_iff, implies_true, and_true]
    exact ⟨h.tradingSystemName, h.tradingSystemVersion, h.tradingSystemVendor,
      newline_notMem_toString _, newline_notMem_toString _⟩
  intro line hm
  cases List.mem_append.1 hm with
  | inl hm => exact hfirst line hm
  | inr hm =>
    split at hm
    · cases hm
    · exact hsecond line hm

/-- The lines can be read off the text. -/
theorem SingleLine.lines_eq {m : CanonicalMessage} (h : m.SingleLine) :
    m.signedText.splitOn '\n' = m.lines := by
  rw [signedText_eq]
  apply List.splitOn_intercalate
  · exact h.notMem
  · simp [lines]

/-- Messages with the same text are the same. -/
theorem signedText_injective {m m' : CanonicalMessage} (hm : m.SingleLine) (hm' : m'.SingleLine)
    (hr : m.Regular) (hr' : m'.Regular) (h : m.signedText = m'.signedText) : m = m' := by
  have hlines : m.lines = m'.lines := by rw [← hm.lines_eq, ← hm'.lines_eq, h]
  unfold lines at hlines
  have hfirst := List.append_inj hlines rfl
  simp only [List.cons.injEq, and_true] at hfirst
  obtain ⟨⟨htime, huuid, hsession, hfirm⟩, hrest⟩ := hfirst
  have htime := toString_toList_injective htime
  have huuid := toString_toList_injective huuid
  have hsession := String.toList_injective hsession
  have hfirm := String.toList_injective hfirm
  by_cases hname : m.tradingSystemName = ""
  · rw [if_pos hname] at hrest
    have hname' : m'.tradingSystemName = "" := by
      by_contra hne
      rw [if_neg hne] at hrest
      cases hrest
    obtain ⟨hversion, hvendor, hnext, hkeep⟩ := hr hname
    obtain ⟨hversion', hvendor', hnext', hkeep'⟩ := hr' hname'
    cases m
    cases m'
    simp_all
  · rw [if_neg hname] at hrest
    have hname' : m'.tradingSystemName ≠ "" := by
      intro he
      rw [if_pos he] at hrest
      cases hrest
    rw [if_neg hname'] at hrest
    simp only [List.cons.injEq, and_true] at hrest
    obtain ⟨hname, hversion, hvendor, hnext, hkeep⟩ := hrest
    have hname := String.toList_injective hname
    have hversion := String.toList_injective hversion
    have hvendor := String.toList_injective hvendor
    have hnext := toString_toList_injective hnext
    have hkeep := toString_toList_injective hkeep
    cases m
    cases m'
    simp_all

end CanonicalMessage

/-- The message whose text is signed. -/
def Sent.canonicalMessage : Sent → Option CanonicalMessage
  | .negotiate value => some value
  | .establish value => some value
  | .sequence _ _ | .order _ | .orderMassStatusRequest _ | .orderMassActionRequest _ => none

/-- The login messages of a configuration: only an `Establish` has a trading system. -/
def Sent.IsOf (config : Config) : Sent → Prop
  | .negotiate value => ∃ requestTimestamp uuid,
    value = { requestTimestamp := requestTimestamp, uuid := uuid, session := config.login
              firmId := config.firmId }
  | .establish value => value.session = config.login ∧ value.firmId = config.firmId ∧
    value.tradingSystemName = config.tradingSystemName ∧
    value.tradingSystemVersion = config.tradingSystemVersion ∧
    value.tradingSystemVendor = "ROQ GMBH"
  | .sequence _ _ | .order _ | .orderMassStatusRequest _ | .orderMassActionRequest _ => True

/-- The texts of the configuration are single lines, and the trading system has a name. -/
structure Config.SingleLine (config : Config) : Prop where
  login : '\n' ∉ config.login.toList
  firmId : '\n' ∉ config.firmId.toList
  tradingSystemName : '\n' ∉ config.tradingSystemName.toList
  tradingSystemVersion : '\n' ∉ config.tradingSystemVersion.toList
  named : config.tradingSystemName ≠ ""

theorem Config.SingleLine.message {config : Config} (hc : config.SingleLine) {message : Sent}
    (h : message.IsOf config) {value : CanonicalMessage}
    (hv : message.canonicalMessage = some value) : value.SingleLine ∧ value.Regular := by
  cases message with
  | negotiate value' =>
    cases hv
    obtain ⟨requestTimestamp, uuid, rfl⟩ := h
    refine ⟨⟨hc.login, hc.firmId, by simp, by simp, by simp⟩, ?_⟩
    exact fun _ => ⟨rfl, rfl, rfl, rfl⟩
  | establish value' =>
    cases hv
    obtain ⟨hsession, hfirm, hname, hversion, hvendor⟩ := h
    refine ⟨⟨?_, ?_, ?_, ?_, ?_⟩, ?_⟩
    · rw [hsession]
      exact hc.login
    · rw [hfirm]
      exact hc.firmId
    · rw [hname]
      exact hc.tradingSystemName
    · rw [hversion]
      exact hc.tradingSystemVersion
    · rw [hvendor]
      decide
    · intro he
      rw [hname] at he
      exact absurd he hc.named
  | _ => cases hv

/-- The kind of a login message can be read off its text. -/
theorem Config.SingleLine.eq_of_signedText {config : Config} (hc : config.SingleLine)
    {m m' : Sent} (h : m.IsOf config) (h' : m'.IsOf config) {value value' : CanonicalMessage}
    (hv : m.canonicalMessage = some value) (hv' : m'.canonicalMessage = some value')
    (htext : value.signedText = value'.signedText) : m = m' := by
  obtain ⟨hline, hregular⟩ := hc.message h hv
  obtain ⟨hline', hregular'⟩ := hc.message h' hv'
  have heq := CanonicalMessage.signedText_injective hline hline' hregular hregular' htext
  have hkind : ∀ {negotiate establish : CanonicalMessage},
      (Sent.negotiate negotiate).IsOf config → (Sent.establish establish).IsOf config →
        negotiate ≠ establish := by
    intro negotiate establish hn he hsame
    obtain ⟨requestTimestamp, uuid, rfl⟩ := hn
    have hname := he.2.2.1
    rw [← hsame] at hname
    exact hc.named hname.symm
  cases m with
  | negotiate x =>
    cases hv
    cases m' with
    | negotiate y =>
      cases hv'
      rw [heq]
    | establish y =>
      cases hv'
      exact absurd heq (hkind h h')
    | _ => cases hv'
  | establish x =>
    cases hv
    cases m' with
    | negotiate y =>
      cases hv'
      exact absurd heq.symm (hkind h' h)
    | establish y =>
      cases hv'
      rw [heq]
    | _ => cases hv'
  | _ => cases hv

namespace Session

/-- Since `s` only messages of its configuration were tried. -/
structure Builds (s t : Session D) : Prop where
  config : t.config = s.config
  tried : ∃ new, t.tried = s.tried ++ new ∧ ∀ p ∈ new, p.1.IsOf s.config

section Builds
variable {s t u : Session D}

theorem Builds.refl (s : Session D) : Builds s s := ⟨rfl, [], by simp, by simp⟩

theorem Builds.congr (h : Builds s t) (hconfig : u.config = t.config)
    (htried : u.tried = t.tried) : Builds s u := by
  obtain ⟨hc, new, hnew, hof⟩ := h
  exact ⟨hconfig.trans hc, new, htried.trans hnew, hof⟩

variable (env : SessionEnv D) (clock : Clock)

theorem Builds.send (h : Builds s t) {message : Sent} (hm : message.IsOf t.config) :
    Builds s (Session.send env clock message t).1 := by
  obtain ⟨hc, new, htried, hof⟩ := h
  have hconfig : (Session.send env clock message t).1.config = t.config := by
    unfold Session.send
    split
    · rfl
    · rfl
  obtain ⟨⟨left, hleft⟩, -⟩ := send_spec env clock message t
  refine ⟨hconfig.trans hc, new ++ [(message, left)], ?_, ?_⟩
  · rw [hleft, htried, List.append_assoc]
  · intro p hp
    cases List.mem_append.1 hp with
    | inl hp => exact hof p hp
    | inr hp =>
      cases List.mem_singleton.1 hp
      rw [← hc]
      exact hm

theorem builds_sending : Sending env clock (Builds s) where
  congr h hconfig _ _ htried := h.congr hconfig htried
  order t message h := h.send env clock trivial
  request t message msgSeqNum h hnum _ := by
    have h' : Builds s { t with requestId := t.requestId + 1, msgSeqNum := msgSeqNum } :=
      h.congr rfl rfl
    refine h'.send env clock ?_
    cases message with
    | negotiate value => cases hnum
    | establish value => cases hnum
    | _ => trivial

theorem sendNegotiate_builds : Command.Keeps (Builds s) (sendNegotiate env clock) := by
  intro t h
  have h' : Builds s { t with uuid := clock.realtime / 1000 } := h.congr rfl rfl
  exact h'.send env clock ⟨_, _, rfl⟩

theorem step_builds (event : Event Qp Qo) (hquiet : event ≠ .disconnected) (s : Session D) :
    Builds s (step env clock event s).1 := by
  by_cases hconnected : event = .connected
  · subst hconnected
    have hkeeps : Command.Keeps (Builds s) (onConnected env clock) :=
      (sendNegotiate_builds env clock).andThen ((builds_sending env clock).setStatus .loginSent)
    exact hkeeps s (Builds.refl s)
  · refine (builds_sending env clock).step ?_ ?_ event hconnected hquiet s (Builds.refl s)
    · exact fun t h => h.send env clock ⟨rfl, rfl, rfl, rfl, rfl⟩
    · exact fun t h => h.send env clock trivial

end Builds

section Run
variable {env : SessionEnv D}

/-- The messages in the history of a run are those of its configuration. -/
theorem observed_isOf (config : Config) (events : List (Clock × Event Qp Qo)) :
    ∀ message left, .tried message left ∈ history env config events → message.IsOf config := by
  have hfold : ∀ (events : List (Clock × Event Qp Qo)) (st : Session D × List Moment),
      st.1.config = config → (∀ message left, .tried message left ∈ st.2 → message.IsOf config) →
        ∀ message left, .tried message left ∈ (events.foldl (observe env) st).2 →
          message.IsOf config := by
    intro events
    induction events with
    | nil => exact fun _ _ h => h
    | cons e events ih =>
      intro st hconfig h
      by_cases hquiet : e.2 = .disconnected
      · refine ih (observe env st e) ?_ ?_
        · simp only [observe, hquiet, step, onDisconnected, Command.update]
          exact hconfig
        · intro message left hm
          simp only [observe, hquiet, step, onDisconnected, Command.update, Event.moments,
            List.drop_nil, List.map_nil, List.append_nil, List.mem_append, List.mem_singleton,
            reduceCtorEq, or_false] at hm
          exact h message left hm
      · obtain ⟨hc, new, htried, hnew⟩ := step_builds env e.1 e.2 hquiet st.1
        refine ih (observe env st e) ?_ ?_
        · exact hc.trans hconfig
        · intro message left hm
          simp only [observe, List.mem_append] at hm
          rw [htried, List.drop_left, List.mem_map] at hm
          obtain hm | hm | ⟨p, hp, hmoment⟩ := hm
          · exact h message left hm
          · exact absurd rfl (Event.moments_ne_tried e.2 _ hm message left)
          · cases hmoment
            rw [← hconfig]
            exact hnew p hp
  exact hfold events _ rfl fun _ _ hm => by cases hm

end Run

/-- In a run of a session whose texts are single lines, two login messages have the same signed text
only if they are the same message: no signature of one connection fits another message, and none of
a `Negotiate` fits an `Establish`. -/
theorem signatures_unambiguous (env : SessionEnv D) (config : Config) (hc : config.SingleLine)
    (events : List (Clock × Event Qp Qo)) (m m' : Sent) (left left' : Bool)
    (hm : .tried m left ∈ history env config events)
    (hm' : .tried m' left' ∈ history env config events) (value value' : CanonicalMessage)
    (hv : m.canonicalMessage = some value) (hv' : m'.canonicalMessage = some value') :
    value.signedText = value'.signedText ↔ m = m' := by
  constructor
  · have h := observed_isOf config events m left hm
    have h' := observed_isOf config events m' left' hm'
    exact hc.eq_of_signedText h h' hv hv'
  · intro he
    rw [he, hv'] at hv
    cases hv
    rfl

/-- The `Negotiate` and the `Establish` of a login in the first microsecond. -/
theorem signatures_unambiguous_at_login :
    let negotiate : CanonicalMessage :=
      { requestTimestamp := 1000, uuid := 1, session := "SES", firmId := "FIRM" }
    let establish : CanonicalMessage :=
      { requestTimestamp := 1000, uuid := 1, session := "SES", firmId := "FIRM"
        tradingSystemName := "roq-cme", tradingSystemVersion := "1"
        tradingSystemVendor := "ROQ GMBH", nextSeqNo := 1, keepAliveInterval := 30000 }
    negotiate.signedText = establish.signedText ↔
      Sent.negotiate negotiate = Sent.establish establish := by
  intro negotiate establish
  refine signatures_unambiguous SessionEnv.sample Config.sample
    ⟨by decide, by decide, by decide, by decide, by decide⟩ (Session.login Unit Unit 1000)
    (.negotiate negotiate) (.establish establish) true true ?_ ?_ negotiate establish rfl rfl
  · decide +kernel
  · decide +kernel

end Session
end RoqCme.Gateway
