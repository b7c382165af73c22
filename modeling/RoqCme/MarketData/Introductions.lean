import RoqCme.Gateway.SymbolIndex
import RoqCme.MarketData.FoundSecurities
import RoqCme.MarketData.Streams

/-! Every instrument is introduced by its reference data before anything else is said about it, and
nothing else is said about an instrument whose symbol is discarded. -/
namespace RoqCme.MarketData
open RoqCme.Lib RoqCme.Mdp RoqCme.Tools
variable {β Qp Qo : Type}

section Operations
variable {U : Type}

/-- The exchange and the symbol that an update is about. -/
def instrumentOf : Published → String × String
  | .referenceData value => (value.exchange, value.symbol)
  | .marketStatus header _ | .topOfBook header _ _ | .marketByPrice header _ _ _
  | .marketByOrder header _ _ | .tradeSummary header _ | .statistics header _ _ =>
    (header.exchange, header.symbol)

/-- The effect publishes nothing but updates of the instrument, and reference data with its
discard flag. -/
def Effect.Names (s : Security Qp Qo) (e : Effect) : Prop :=
  ∀ value, e = .publish value → instrumentOf value = (s.exchange, s.symbol) ∧
    ∀ item, value = .referenceData item → item.discard = s.discard

theorem Effect.Names.same {s t : Security Qp Qo} {e : Effect} (h : e.Names t)
    (hst : SameInstrument s t) : e.Names s := by
  intro value hv
  obtain ⟨hi, hd⟩ := h value hv
  refine ⟨by rw [hi, hst.exchange, hst.symbol], ?_⟩
  intro item hitem
  rw [hd item hitem, hst.discard]

theorem Effect.names_of_silent {s : Security Qp Qo} {e : Effect} (h : e.published = none) :
    e.Names s := by
  intro value hv
  rw [hv] at h
  cases h

theorem Effect.names_publish {s : Security Qp Qo} {value : Published}
    (hi : instrumentOf value = (s.exchange, s.symbol)) (hr : SupportType.of value ≠ .referenceData) :
    (Effect.publish value).Names s := by
  intro published hp
  rw [← Effect.publish.inj hp]
  refine ⟨hi, ?_⟩
  intro item hitem
  rw [hitem] at hr
  exact absurd rfl hr

theorem Callbacks.Follows.names {c : Callbacks U} {publishUpdate : U → Published} {e : Effect}
    (h : c.Follows publishUpdate e) {s : Security Qp Qo}
    (hu : ∀ content, (Effect.publish (publishUpdate content)).Names s)
    (hs : ∀ content n, (Effect.publish (c.publishSnapshot content n)).Names s) : e.Names s := by
  cases h with
  | update content => exact hu content
  | snapshot content n => exact hs content n
  | mark n => exact Effect.names_of_silent rfl
  | clear => exact Effect.names_of_silent rfl

theorem names_marketByPrice {s : Security Qp Qo} {header : Header} (bids asks : List MBPUpdate)
    (updateType : UpdateType) (he : header.exchange = s.exchange) (hs : header.symbol = s.symbol) :
    (Effect.publish (.marketByPrice header bids asks updateType)).Names s :=
  Effect.names_publish (Prod.ext he hs) SupportType.noConfusion

theorem names_marketByOrder {s : Security Qp Qo} {header : Header} (orders : List MBOUpdate)
    (updateType : UpdateType) (he : header.exchange = s.exchange) (hs : header.symbol = s.symbol) :
    (Effect.publish (.marketByOrder header orders updateType)).Names s :=
  Effect.names_publish (Prod.ext he hs) SupportType.noConfusion

theorem dispatchMarketByPrice_names (env : Env Qp Qo) (ctx : Context) (bids asks : List MBPUpdate)
    (isSnapshot : Bool) (s : Security Qp Qo) :
    ∀ e ∈ (dispatchMarketByPrice env ctx bids asks isSnapshot s).2, e.Names s := by
  intro e he
  cases List.mem_cons.1 he with
  | inl he => rw [he]; exact Effect.names_of_silent rfl
  | inr he =>
    refine (Callbacks.submit_follows _ _ _ _ _ _ _ _ e he).names ?_ ?_
    · exact fun levels => names_marketByPrice _ _ _ rfl rfl
    · exact fun levels n => names_marketByPrice _ _ _ rfl rfl

theorem dispatchMarketByOrder_names (env : Env Qp Qo) (ctx : Context) (orders : List MBOUpdate)
    (isSnapshot : Bool) (s : Security Qp Qo) :
    ∀ e ∈ (dispatchMarketByOrder env ctx orders isSnapshot s).2, e.Names s := by
  intro e he
  cases List.mem_cons.1 he with
  | inl he => rw [he]; exact Effect.names_of_silent rfl
  | inr he =>
    refine (Callbacks.submit_follows _ _ _ _ _ _ _ _ e he).names ?_ ?_
    · exact fun orders => names_marketByOrder _ _ rfl rfl
    · exact fun orders n => names_marketByOrder _ _ rfl rfl

theorem checkReportSequence_names (env : Env Qp Qo) (ctx : Context) (rptSeq : Nat)
    (s : Security Qp Qo) : ∀ e ∈ (checkReportSequence env ctx rptSeq s).2, e.Names s := by
  have hsame : (s.updateRptSeq rptSeq).2.exchange = s.exchange ∧
      (s.updateRptSeq rptSeq).2.symbol = s.symbol := by
    have h := (checkReportSequence_same env ctx rptSeq s).1
    unfold checkReportSequence at h
    simp only at h
    split at h
    · exact ⟨h.exchange, h.symbol⟩
    · exact ⟨h.exchange, h.symbol⟩
  intro e he
  unfold checkReportSequence at he
  simp only at he
  split at he
  · simp only [List.mem_cons, List.not_mem_nil, or_false] at he
    obtain rfl | rfl | rfl | rfl | rfl | rfl | rfl := he
    · exact Effect.names_of_silent rfl
    · exact Effect.names_of_silent rfl
    · exact Effect.names_of_silent rfl
    · exact names_marketByPrice _ _ _ hsame.1 hsame.2
    · exact Effect.names_of_silent rfl
    · exact Effect.names_of_silent rfl
    · exact names_marketByOrder _ _ hsame.1 hsame.2
  · rw [List.mem_singleton.1 he]
    exact Effect.names_of_silent rfl

theorem publishOp_names {value : Security Qp Qo → Published} {s : Security Qp Qo}
    (hi : instrumentOf (value s) = (s.exchange, s.symbol))
    (hr : SupportType.of (value s) ≠ .referenceData) : ∀ e ∈ (publishOp value s).2, e.Names s := by
  intro e he
  rw [List.mem_singleton.1 he]
  exact Effect.names_publish hi hr

/-- Every operation of the incremental feed publishes for its security alone. -/
theorem Action.op_names (env : Env Qp Qo) (ctx : Context) (action : Action) (s : Security Qp Qo) :
    ∀ e ∈ (action.op env ctx s).2, e.Names s := by
  cases action with
  | checkReportSequence rptSeq => exact checkReportSequence_names env ctx rptSeq s
  | dispatchMarketByPrice bids asks b => exact dispatchMarketByPrice_names env ctx bids asks b s
  | dispatchMarketByOrder orders b => exact dispatchMarketByOrder_names env ctx orders b s
  | dispatchOrderBook47 orders => exact dispatchMarketByOrder_names env ctx orders _ s
  | topOfBook layer => exact publishOp_names rfl SupportType.noConfusion
  | tradeSummary trades => exact publishOp_names rfl SupportType.noConfusion
  | statistics items => exact publishOp_names rfl SupportType.noConfusion
  | marketStatus status => exact publishOp_names rfl SupportType.noConfusion
  | referenceData value =>
    intro e he published hp
    simp only [Action.op, List.mem_cons] at he
    cases he with
    | inl he =>
      rw [he] at hp
      cases hp
      refine ⟨rfl, ?_⟩
      intro item hitem
      cases hitem
      rfl
    | inr he =>
      split at he
      · cases he
      · rw [List.mem_singleton.1 he] at hp
        exact Effect.names_publish rfl SupportType.noConfusion published hp

theorem MBPMarketRecovery.snapshotFullRefresh_names (env : Env Qp Qo) (ctx : Context)
    (sequence : Sequence) (value : Snapshot52) (s : Security Qp Qo) :
    ∀ e ∈ (snapshotFullRefresh env ctx sequence value s).2, e.Names s := by
  intro e he
  unfold snapshotFullRefresh at he
  split at he
  · cases he
  · simp only at he
    split at he
    · cases he
    · unfold dispatchMarketByPrice at he
      split at he
      · cases he
      · cases List.mem_cons.1 he with
        | inl he => rw [he]; exact Effect.names_of_silent rfl
        | inr he =>
          refine (Callbacks.recover_follows _ _ _ _ _ _ _ e he).names ?_ ?_
          · exact fun levels => names_marketByPrice _ _ _ rfl rfl
          · exact fun levels n => names_marketByPrice _ _ _ rfl rfl

theorem MBOFDMarketRecovery.snapshotFullRefreshOrderBook53_names (env : Env Qp Qo)
    (streamId : Nat) (sequence : Sequence) (value : Snapshot53) (s : Security Qp Qo) :
    ∀ e ∈ (snapshotFullRefreshOrderBook53 env streamId sequence value s).2, e.Names s := by
  have hchunk : ∀ last (t : Security Qp Qo), t.exchange = s.exchange → t.symbol = s.symbol →
      ∀ e ∈ (onChunk env streamId sequence value last t).2, e.Names s := by
    intro last t hx hy e he
    cases last with
    | false => cases he
    | true =>
      cases List.mem_cons.1 he with
      | inl he => rw [he]; exact Effect.names_of_silent rfl
      | inr he =>
        refine (Callbacks.recover_follows _ _ _ _ _ _ _ e he).names ?_ ?_
        · exact fun orders => names_marketByOrder _ _ hx hy
        · exact fun orders n => names_marketByOrder _ _ hx hy
  intro e he
  unfold snapshotFullRefreshOrderBook53 at he
  split at he
  · cases he
  · unfold Security.updateMboSnapshot at he
    split at he
    · split at he
      · cases he
      · split at he
        · split at he
          · exact hchunk true s rfl rfl e he
          · refine hchunk false _ ?_ ?_ e he
            · rfl
            · rfl
        · cases he
    · split at he
      · refine hchunk _ _ ?_ ?_ e he
        · rfl
        · rfl
      · cases he

end Operations

/-- Reference data of the instrument is among the outputs. -/
def Told (instrument : String × String) (outputs : List Output) : Prop :=
  ∃ value : ReferenceData, (value.exchange, value.symbol) = instrument ∧
    (.referenceData value ∈ outputs ∨ .update (.referenceData value) ∈ outputs)

/-- Reference data says whether its symbol is discarded. Any other update is for an instrument that
is not discarded, after its reference data. -/
def Introduced (discardSymbol : String → Bool) (before : List Output) : Output → Prop
  | .streamStatus _ => True
  | .referenceData value | .update (.referenceData value) =>
    value.discard = discardSymbol value.symbol
  | .update value =>
    discardSymbol (instrumentOf value).2 = false ∧ Told (instrumentOf value) before

theorem Told.append {instrument : String × String} {outputs : List Output}
    (h : Told instrument outputs) (recent : List Output) : Told instrument (outputs ++ recent) := by
  obtain ⟨value, hi, hm⟩ := h
  refine ⟨value, hi, ?_⟩
  cases hm with
  | inl hm => exact Or.inl (List.mem_append_left recent hm)
  | inr hm => exact Or.inr (List.mem_append_left recent hm)

section Introduction
variable {discardSymbol : String → Bool}

/-- What a security that is in use may publish once it was told about. -/
theorem Effect.Names.introduced {s : Security Qp Qo} {value : Published}
    (h : (Effect.publish value).Names s) (hd : s.discard = false)
    (hs : s.discard = discardSymbol s.symbol) {before : List Output}
    (ht : Told (s.exchange, s.symbol) before) :
    Introduced discardSymbol before (.update value) := by
  obtain ⟨hi, hr⟩ := h value rfl
  cases value with
  | referenceData item =>
    have hsymbol : item.symbol = s.symbol := congrArg Prod.snd hi
    rw [Introduced, hr item rfl, hs, hsymbol]
  | _ => exact ⟨by rw [hi, ← hs, hd], by rw [hi]; exact ht⟩

/-- The table is in step with the outputs: the filter decided about every security, and those in
use were told about. -/
structure Covers (discardSymbol : String → Bool) (outputs : List Output)
    (sd : SecurityDefinitions Qp Qo) : Prop where
  discard : ∀ securityId s, sd.securities securityId = some s →
    s.discard = discardSymbol s.symbol
  told : ∀ securityId s, sd.securities securityId = some s → s.discard = false →
    Told (s.exchange, s.symbol) outputs

theorem Covers.append {outputs : List Output} {sd : SecurityDefinitions Qp Qo}
    (h : Covers discardSymbol outputs sd) (recent : List Output) :
    Covers discardSymbol (outputs ++ recent) sd :=
  ⟨h.discard, fun securityId s hs hd => (h.told securityId s hs hd).append recent⟩

/-- The outputs so far, and what the records from the `n`-th on add to them. -/
def outputsSince (outputs : List Output) (n : Nat) (shared : Shared Qp Qo) : List Output :=
  outputs ++ (shared.trace.drop n).flatMap Record.outputs

structure Introducing (discardSymbol : String → Bool) (outputs : List Output) (n : Nat)
    (shared : Shared Qp Qo) : Prop where
  length : n ≤ shared.trace.length
  covers : Covers discardSymbol (outputsSince outputs n shared) shared.securityDefinitions
  each : Each (Introduced discardSymbol) (outputsSince outputs n shared)

variable {outputs : List Output} {n : Nat} {shared : Shared Qp Qo}

/-- One more record. -/
theorem Introducing.record (h : Introducing discardSymbol outputs n shared) {r : Record}
    {next : Shared Qp Qo} (hnext : next.trace = shared.trace ++ [r])
    (hcovers : Covers discardSymbol (outputsSince outputs n shared ++ r.outputs)
      next.securityDefinitions)
    (heach : Each (fun before => Introduced discardSymbol (outputsSince outputs n shared ++ before))
      r.outputs) : Introducing discardSymbol outputs n next := by
  have houtputs : outputsSince outputs n next = outputsSince outputs n shared ++ r.outputs := by
    simp only [outputsSince, hnext, List.drop_append_of_le_length h.length, List.flatMap_append,
      List.flatMap_singleton, List.append_assoc]
  refine ⟨?_, ?_, ?_⟩
  · rw [hnext, List.length_append]
    exact Nat.le_add_right_of_le h.length
  · rw [houtputs]
    exact hcovers
  · rw [houtputs]
    exact each_append h.each heach

theorem mem_outputs {r : Record} {output : Output} (h : output ∈ r.outputs) :
    ∃ value, .publish value ∈ r.effects ∧ output = .update value := by
  obtain ⟨value, hvalue, rfl⟩ := List.mem_map.1 h
  obtain ⟨effect, heffect, hpub⟩ := List.mem_filterMap.1 hvalue
  cases effect with
  | publish published =>
    cases hpub
    exact ⟨value, heffect, rfl⟩
  | _ => cases hpub

/-- An operation on a security in use. -/
theorem Introducing.onSecurity (h : Introducing discardSymbol outputs n shared) {securityId : Int}
    (hget : (shared.securityDefinitions.getSecurity securityId).isSome) (site : Site)
    {op : SecurityOp Qp Qo} (hop : ∀ s, SameInstrument s (op s).1)
    (hnames : ∀ s, ∀ e ∈ (op s).2, e.Names s) :
    Introducing discardSymbol outputs n (shared.onSecurity securityId site op) := by
  obtain ⟨s, hs⟩ := Option.isSome_iff_exists.1 hget
  obtain ⟨hs, hd⟩ := getSecurity_eq_some.1 hs
  have hfilter := h.covers.discard securityId s hs
  have htold := h.covers.told securityId s hs hd
  simp only [Shared.onSecurity, hs]
  apply h.record rfl
  · constructor
    · intro other t ht
      simp only [SecurityDefinitions.setSecurity, Function.update_apply] at ht
      split at ht
      · cases ht
        rw [(hop s).discard, (hop s).symbol, hfilter]
      · exact h.covers.discard other t ht
    · intro other t ht hdt
      simp only [SecurityDefinitions.setSecurity, Function.update_apply] at ht
      split at ht
      · cases ht
        rw [(hop s).exchange, (hop s).symbol]
        exact htold.append _
      · exact (h.covers.told other t ht hdt).append _
  · intro before x after he
    have hx : x ∈ before ++ x :: after := by simp
    rw [← he] at hx
    obtain ⟨value, hvalue, rfl⟩ := mem_outputs hx
    exact (hnames s _ hvalue).introduced hd hfilter (htold.append before)

theorem Introducing.performAll (env : Env Qp Qo) (ctx : Context) (calls : List Call)
    (h : Introducing discardSymbol outputs n shared)
    (hcalls : Lookup.Knows shared.securityDefinitions.getSecurity calls) :
    Introducing discardSymbol outputs n (performAll env ctx calls shared) := by
  induction calls generalizing shared with
  | nil => exact h
  | cons call calls ih =>
    have hsame : ∀ s, SameInstrument s (call.action.op env ctx s).1 :=
      fun s => (Action.op_same env ctx call.action s).1
    apply ih
    · exact h.onSecurity (hcalls call List.mem_cons_self) _ hsame
        (Action.op_names env ctx call.action)
    · intro c hc
      obtain ⟨s, hs⟩ := Option.isSome_iff_exists.1 (hcalls c (List.mem_cons_of_mem call hc))
      have hgrown := (onSecurity_grown shared call.securityId call.action.site _ hsame).1
      obtain ⟨s', hs', -⟩ := hgrown.getSecurity hs
      exact Option.isSome_iff_exists.2 ⟨s', hs'⟩

/-- Reference data goes out first, for whatever security there is under the id. -/
theorem Introducing.referenceData (env : Env Qp Qo) (ctx : Context)
    (h : Introducing discardSymbol outputs n shared) {value : InstrumentDefinition}
    {start : Shared Qp Qo} (htrace : start.trace = shared.trace) {s : Security Qp Qo}
    (hs : start.securityDefinitions.securities value.securityID = some s)
    (hfilter : s.discard = discardSymbol s.symbol)
    (hother : ∀ securityId, securityId ≠ value.securityID →
      start.securityDefinitions.securities securityId =
        shared.securityDefinitions.securities securityId) :
    Introducing discardSymbol outputs n
      (MarketData.performAll env ctx [⟨value.securityID, .referenceData value⟩] start) := by
  let item := createReferenceData value ctx.streamId s
  let status := createMarketStatus value ctx.streamId s
  have hrecord : (⟨value.securityID, .referenceData, (Action.op env ctx (.referenceData value) s).2⟩ :
      Record).outputs =
      .update (.referenceData item) :: if s.discard then [] else [.update status] := by
    cases hd : s.discard with
    | true => simp [Record.outputs, Action.op, Effect.published, item, hd]
    | false => simp [Record.outputs, Action.op, Effect.published, item, status, hd]
  simp only [MarketData.performAll, List.foldl_cons, List.foldl_nil, Call.perform,
    Shared.onSecurity, hs, Action.site]
  apply h.record (by rw [htrace])
  · rw [hrecord]
    constructor
    · intro other t ht
      simp only [SecurityDefinitions.setSecurity, Function.update_apply] at ht
      split at ht
      · cases ht
        exact hfilter
      · next hne =>
        rw [hother other hne] at ht
        exact h.covers.discard other t ht
    · intro other t ht hd
      simp only [SecurityDefinitions.setSecurity, Function.update_apply] at ht
      split at ht
      · cases ht
        exact ⟨item, rfl, Or.inr (by simp)⟩
      · next hne =>
        rw [hother other hne] at ht
        exact (h.covers.told other t ht hd).append _
  · rw [hrecord]
    refine each_cons.2 ⟨hfilter, ?_⟩
    split
    · exact each_nil _
    · next hd =>
      have hkept : discardSymbol s.symbol = false := by
        rw [← hfilter]
        exact Bool.not_eq_true _ ▸ hd
      exact each_cons.2 ⟨⟨hkept, item, rfl, Or.inr (by simp)⟩, each_nil _⟩

theorem Introducing.define {env : Env Qp Qo} (ctx : Context)
    (h : Introducing env.discardSymbol outputs n shared) {value : InstrumentDefinition}
    (hnew : shared.securityDefinitions.hasSecurity value.securityID = false)
    {start : Shared Qp Qo} (htrace : start.trace = shared.trace)
    (hdefine : start.securityDefinitions = shared.securityDefinitions.define env.discardSymbol
      env.mbpSequencer.init env.mboSequencer.init value) :
    Introducing env.discardSymbol outputs n
      (MarketData.performAll env ctx [⟨value.securityID, .referenceData value⟩] start) := by
  have hnone : shared.securityDefinitions.securities value.securityID = none := by
    simpa [SecurityDefinitions.hasSecurity] using hnew
  have hs : start.securityDefinitions.securities value.securityID =
      some (newSecurity env.mbpSequencer.init env.mboSequencer.init value.securityExchange
        value.symbol (price9 value.displayFactor) (env.discardSymbol value.symbol)) := by
    rw [hdefine, define_securities_eq, if_pos rfl, hnone]
    rfl
  apply h.referenceData env ctx htrace hs rfl
  intro securityId hne
  rw [hdefine, define_securities_eq, if_neg hne]

theorem definitionsAfter_of_none (env : Env Qp Qo) (sd : SecurityDefinitions Qp Qo)
    {message : Message} (h : definitionOf message = none) : definitionsAfter env sd message = sd := by
  cases message with
  | instrumentDefinition value => cases h
  | _ => rfl

theorem Introducing.incremental {env : Env Qp Qo}
    (h : Introducing env.discardSymbol outputs n shared) (streamId : Nat) (frame : Frame)
    (cache : Cache) (message : Message) :
    Introducing env.discardSymbol outputs n
      (Incremental.onMessage env streamId frame (cache, shared) message).2 := by
  cases hdefinition : definitionOf message with
  | none =>
    have hcalls := react_known env.options shared.securityDefinitions cache shared.pending
      hdefinition
    simp only [Incremental.onMessage, definitionsAfter_of_none env _ hdefinition]
    exact Introducing.performAll env _ _ ⟨h.length, h.covers, h.each⟩ hcalls
  | some value =>
    cases message with
    | instrumentDefinition definition =>
      simp only [Incremental.onMessage, react, instrumentDefinition, definitionsAfter]
      split
      · cases hnew : shared.securityDefinitions.hasSecurity definition.securityID with
        | true =>
          rw [define_of_hasSecurity _ _ _ hnew, if_pos rfl]
          exact ⟨h.length, h.covers, h.each⟩
        | false =>
          rw [if_neg Bool.false_ne_true]
          exact h.define _ hnew rfl rfl
      · split
        · next s hs =>
          exact h.referenceData env _ rfl hs (h.covers.discard _ s hs) fun _ _ => rfl
        · exact ⟨h.length, h.covers, h.each⟩
    | _ => cases hdefinition

theorem Introducing.definitionFeed {env : Env Qp Qo}
    (h : Introducing env.discardSymbol outputs n shared) (streamId : Nat) (frame : Frame)
    (message : Message) : Introducing env.discardSymbol outputs n
      (InstrumentDefinition.onMessage env streamId frame shared message) := by
  unfold InstrumentDefinition.onMessage
  split
  · split
    · exact h
    · next hnew => exact h.define _ (by simpa using hnew) rfl rfl
  · exact h

/-- Whatever a feed delivers, its updates are introduced. -/
theorem Introducing.step {env : Env Qp Qo} {f : Feeds Qp Qo}
    (h : Introducing env.discardSymbol outputs n f.shared) (d : Delivery) :
    Introducing env.discardSymbol outputs n (f.step env d).shared := by
  cases d with
  | incremental channelId streamId frame message => exact h.incremental streamId frame _ message
  | sequenceReset channelId => exact h
  | instrumentDefinition streamId frame message => exact h.definitionFeed streamId frame message
  | mbpRecovery streamId frame sequence message =>
    simp only [Feeds.step, MBPMarketRecovery.onMessage]
    have hop : ∀ value s, f.shared.securityDefinitions.getSecurity value.securityID = some s →
        Introducing env.discardSymbol outputs n (f.shared.onSecurity value.securityID
          .mbpMarketRecovery
          (MBPMarketRecovery.snapshotFullRefresh env ⟨streamId, frame, 0⟩ sequence value)) := by
      intro value s hs
      exact h.onSecurity (by rw [hs]; rfl) _
        (fun t => (MBPMarketRecovery.snapshotFullRefresh_same env _ sequence value t).1)
        (MBPMarketRecovery.snapshotFullRefresh_names env _ sequence value)
    split
    · split
      · next s hs => exact hop _ s hs
      · exact h
    · split
      · next s hs => exact hop _ s hs
      · exact h
    · exact h
  | mbofdRecovery streamId sequence message =>
    simp only [Feeds.step, MBOFDMarketRecovery.onMessage]
    split
    · next value =>
      split
      · next s hs =>
        exact h.onSecurity (by rw [hs]; rfl) _
          (fun t => (MBOFDMarketRecovery.snapshotFullRefreshOrderBook53_same env streamId sequence
            value t).1)
          (MBOFDMarketRecovery.snapshotFullRefreshOrderBook53_names env streamId sequence value)
      · exact h
    · exact h

theorem Introducing.dispatch {S : Setup β Qp Qo} {m : Manager β Qp Qo}
    (h : Introducing S.env.discardSymbol outputs n m.shared) (packet : Packet) :
    Introducing S.env.discardSymbol outputs n (S.dispatch m packet).shared := by
  have hrun : ∀ (ds : List Delivery) (f : Feeds Qp Qo),
      Introducing S.env.discardSymbol outputs n f.shared →
      Introducing S.env.discardSymbol outputs n (Feeds.run S.env ds f).shared := by
    intro ds
    induction ds with
    | nil => exact fun _ h => h
    | cons d ds ih => exact fun f h => ih (f.step S.env d) (h.step d)
  have hfeeds := hrun (S.deliveries m packet) m.feeds h
  rw [← dispatch_refines] at hfeeds
  exact hfeeds

/-- What `read_secdef` publishes: one item for each record that is kept, none of them discarded. -/
theorem readSecdef_items {sd : SecurityDefinitions Qp Qo} {records : List SecDef}
    {items : List ReferenceData} (h : readSecdef discardSymbol sd records = some items) :
    (∀ item ∈ items, item.discard = discardSymbol item.symbol) ∧
      ∀ record ∈ records, discardSymbol record.symbol = false →
        ∃ item ∈ items, item.exchange = record.exchange ∧ item.symbol = record.symbol := by
  induction records generalizing items with
  | nil =>
    cases h
    exact ⟨nofun, nofun⟩
  | cons record records ih =>
    rw [readSecdef] at h
    split at h
    · next hd =>
      obtain ⟨hdiscard, hitems⟩ := ih h
      refine ⟨hdiscard, ?_⟩
      intro other hm hkept
      cases List.mem_cons.1 hm with
      | inl he =>
        rw [he, hd] at hkept
        cases hkept
      | inr hm => exact hitems other hm hkept
    · next hd =>
      split at h
      · cases h
      · next s hs =>
        obtain ⟨rest, hrest, rfl⟩ := Option.map_eq_some_iff.1 h
        obtain ⟨hdiscard, hitems⟩ := ih hrest
        refine ⟨?_, ?_⟩
        · intro item hm
          cases List.mem_cons.1 hm with
          | inl he =>
            rw [he]
            exact (getSecurity_eq_some.1 hs).2.trans (Bool.not_eq_true _ ▸ hd).symm
          | inr hm => exact hdiscard item hm
        · intro other hm hkept
          cases List.mem_cons.1 hm with
          | inl he =>
            rw [he]
            exact ⟨_, List.mem_cons_self, rfl, rfl⟩
          | inr hm =>
            obtain ⟨item, hm, hi⟩ := hitems other hm hkept
            exact ⟨item, List.mem_cons_of_mem _ hm, hi⟩

end Introduction

namespace Publisher
variable {S : Setup β Qp Qo} {settings : StreamSettings}

/-- What holds once the manager has been started. -/
structure Introduces (S : Setup β Qp Qo) (settings : StreamSettings) (p : Publisher β Qp Qo) :
    Prop where
  covers : Covers S.env.discardSymbol p.outputs p.manager.shared.securityDefinitions
  each : Each (Introduced S.env.discardSymbol) p.outputs
  known : ∀ record ∈ settings.secdef, S.env.discardSymbol record.symbol = false →
    (p.manager.shared.securityDefinitions.getSecurity (toInt32 record.securityId)).isSome
  fatal : p.fatal = false

/-- Outputs of other kinds than updates. -/
theorem Introduces.quiet {p q : Publisher β Qp Qo} (h : p.Introduces S settings)
    {recent : List Output} (houtputs : q.outputs = p.outputs ++ recent)
    (hrecent : ∀ output ∈ recent, ∀ before, Introduced S.env.discardSymbol before output)
    (hmanager : q.manager = p.manager) (hfatal : q.fatal = p.fatal) :
    q.Introduces S settings := by
  refine ⟨?_, ?_, ?_, hfatal.trans h.fatal⟩
  · rw [houtputs, hmanager]
    exact h.covers.append recent
  · rw [houtputs]
    apply each_append h.each
    intro before x after he
    apply hrecent
    rw [he]
    simp
  · rw [hmanager]
    exact h.known

theorem Introduces.start {p : Publisher β Qp Qo} (h : p.Introduces S settings) :
    (p.step S settings .start).Introduces S settings := by
  have hsome := Gateway.readSecdef_isSome S.env.discardSymbol _ settings.secdef h.known
  obtain ⟨items, hitems⟩ := Option.isSome_iff_exists.1 hsome
  have hstep : p.step S settings .start =
      { p with outputs := p.outputs ++ items.map .referenceData } := by
    simp only [Publisher.step, hitems]
  rw [hstep]
  refine h.quiet rfl ?_ rfl rfl
  intro output hm before
  obtain ⟨item, hitem, rfl⟩ := List.mem_map.1 hm
  exact (readSecdef_items hitems).1 item hitem

theorem Introduces.onPacket {p : Publisher β Qp Qo} (h : p.Introduces S settings)
    (packet : Packet) : (p.onPacket S settings packet).Introduces S settings := by
  unfold Publisher.onPacket
  split
  · exact h
  · have hq : (p.publishStreamStatus S settings packet.feedId).Introduces S settings := by
      refine h.quiet (publishStreamStatus_outputs S settings packet.feedId p) ?_ rfl rfl
      intro output hm before
      split at hm
      · cases hm
      · rw [List.mem_singleton.1 hm]
        trivial
    generalize p.publishStreamStatus S settings packet.feedId = q at hq
    have hnow : outputsSince q.outputs q.manager.shared.trace.length q.manager.shared =
        q.outputs := by
      rw [outputsSince, List.drop_length, List.flatMap_nil, List.append_nil]
    have hstart : Introducing S.env.discardSymbol q.outputs q.manager.shared.trace.length
        q.manager.shared := by
      refine ⟨le_rfl, ?_, ?_⟩
      · rw [hnow]
        exact hq.covers
      · rw [hnow]
        exact hq.each
    have hdispatch := hstart.dispatch packet
    refine ⟨hdispatch.covers, hdispatch.each, ?_, hq.fatal⟩
    intro record hm hkept
    obtain ⟨s, hs⟩ := Option.isSome_iff_exists.1 (hq.known record hm hkept)
    have hgrown := run_grown S.env (S.deliveries q.manager packet) q.manager.feeds
    rw [← dispatch_refines] at hgrown
    obtain ⟨s', hs', -⟩ := hgrown.getSecurity hs
    exact Option.isSome_iff_exists.2 ⟨s', hs'⟩

theorem Introduces.step {p : Publisher β Qp Qo} (h : p.Introduces S settings) (input : Input) :
    (p.step S settings input).Introduces S settings := by
  cases input with
  | start => exact h.start
  | packet packet => exact h.onPacket packet
  | stop => exact h
  | timer now => exact h.quiet (List.append_nil _).symm nofun rfl rfl

/-- The secdef file has filled the table when the manager is started. -/
theorem start_introduces (S : Setup β Qp Qo) (settings : StreamSettings) (channelIds : List Nat)
    (b : β) : ((start S settings channelIds b).step S settings .start).Introduces S settings := by
  let sd := SecurityDefinitions.load S.env.discardSymbol S.env.mbpSequencer.init
    S.env.mboSequencer.init settings.secdef
  have hknown : ∀ record ∈ settings.secdef, S.env.discardSymbol record.symbol = false →
      (sd.getSecurity (toInt32 record.securityId)).isSome := by
    intro record hm hkept
    obtain ⟨other, -, hget, -⟩ := Gateway.load_known S.env.discardSymbol _ _ settings.secdef
      record hm hkept
    exact Option.isSome_iff_exists.2 ⟨_, hget⟩
  have hsome := Gateway.readSecdef_isSome S.env.discardSymbol sd settings.secdef hknown
  obtain ⟨items, hitems⟩ := Option.isSome_iff_exists.1 hsome
  have hstep : (Publisher.start S settings channelIds b).step S settings .start =
      { Publisher.start S settings channelIds b with outputs := items.map .referenceData } := by
    have hread : readSecdef S.env.discardSymbol
        (Publisher.start S settings channelIds b).manager.shared.securityDefinitions
        settings.secdef = some items := hitems
    simp only [Publisher.step, hread]
    rfl
  obtain ⟨hdiscard, htold⟩ := readSecdef_items hitems
  have hloaded : ∀ securityId s, sd.securities securityId = some s →
      ∃ record ∈ settings.secdef, S.env.discardSymbol record.symbol = false ∧
        s = Gateway.securityOf S.env.discardSymbol S.env.mbpSequencer.init
          S.env.mboSequencer.init record := by
    intro securityId s hs
    rw [Gateway.load_securities_eq, Option.map_eq_some_iff] at hs
    obtain ⟨record, hfirst, rfl⟩ := hs
    have hp := List.find?_some hfirst
    simp only [Bool.and_eq_true, Bool.not_eq_true'] at hp
    exact ⟨record, List.mem_of_find?_eq_some hfirst, hp.1, rfl⟩
  rw [hstep]
  refine ⟨⟨?_, ?_⟩, ?_, hknown, rfl⟩
  · intro securityId s hs
    obtain ⟨record, -, -, rfl⟩ := hloaded securityId s hs
    rfl
  · intro securityId s hs _
    obtain ⟨record, hm, hkept, rfl⟩ := hloaded securityId s hs
    obtain ⟨item, hitem, hexchange, hsymbol⟩ := htold record hm hkept
    exact ⟨item, Prod.ext hexchange hsymbol, Or.inl (List.mem_map_of_mem hitem)⟩
  · intro before x after he
    have hx : x ∈ before ++ x :: after := by simp
    rw [← he] at hx
    obtain ⟨item, hm, rfl⟩ := List.mem_map.1 hx
    exact hdiscard item hm

/-- From its start on the manager never ends in the fatal branch, says of every symbol in its
reference data whether it is discarded, and publishes another update only for an instrument that
is not discarded and after its reference data. -/
theorem run_introduced (S : Setup β Qp Qo) (settings : StreamSettings) (channelIds : List Nat)
    (b : β) (inputs : List Input) :
    let p := run S settings (.start :: inputs) (start S settings channelIds b)
    p.fatal = false ∧ Each (Introduced S.env.discardSymbol) p.outputs := by
  have hrun : ∀ (inputs : List Input) (p : Publisher β Qp Qo), p.Introduces S settings →
      (run S settings inputs p).Introduces S settings := by
    intro inputs
    induction inputs with
    | nil => exact fun _ h => h
    | cons input inputs ih => exact fun p h => ih (p.step S settings input) (h.step input)
  have h := hrun inputs _ (start_introduces S settings channelIds b)
  exact ⟨h.fatal, h.each⟩

end Publisher
end RoqCme.MarketData
