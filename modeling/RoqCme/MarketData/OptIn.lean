import RoqCme.MarketData.ReportSequence

/-! Market by order with `enable_market_by_order` off. The flag guards the order entries of the
book templates; gaps, trade summaries and the first statistics reach the order book without
asking for it. -/
namespace RoqCme.MarketData
open RoqCme.Mdp RoqCme.Tools
variable {Qp Qo : Type}

/-- A submission to an MBO sequencer, or a published market by order of any type. -/
def MboOutput : Effect → Prop
  | .submitMbo _ _ _ => True
  | .publish (.marketByOrder _ _ _) => True
  | _ => False

instance : DecidablePred MboOutput := fun e =>
  match e with
  | .submitMbo _ _ _ => .isTrue trivial
  | .publish (.marketByOrder _ _ _) => .isTrue trivial
  | .publish (.marketByPrice _ _ _ _) | .publish (.topOfBook _ _ _) | .publish (.tradeSummary _ _)
  | .publish (.statistics _ _ _) | .publish (.marketStatus _ _) | .publish (.referenceData _)
  | .updateRptSeq _ _ | .clear _ | .resubscribe _ _ | .submitMbp _ _ _ => .isFalse id

/-- The records made by `Incremental`. -/
def Site.isIncremental : Site → Bool
  | .mbpMarketRecovery | .mbofdMarketRecovery => false
  | _ => true

/-- The report numbers go on from `last` without a gap. -/
def InSequence : Nat → List Nat → Prop
  | _, [] => True
  | last, r :: rest => (r = 0 ∨ r = u32 (last + 1)) ∧ InSequence (if r = 0 then last else r) rest

def NoGap (sd : SecurityDefinitions Qp Qo) (message : Message) : Prop :=
  ∀ securityId s, sd.getSecurity securityId = some s →
    InSequence s.rptSeq (((checkedOf message).filter fun r => r.1 = securityId).map Prod.snd)

/-- What is pending for this transact time. -/
def PendingSummary.since (p : PendingSummary) (transactTime : Nat) : PendingSummary :=
  if transactTime = p.transactTime then p else { transactTime := transactTime }

/-- With this message all orders of the summary have arrived. -/
def PendingSummary.Completes (p : PendingSummary) (value : TradeSummary) : Prop :=
  value.noMDEntries.foldl (fun n item => u64 (n + toSize item.numberOfOrders))
      p.totalNumberOfOrders ≤ p.orders.length + value.noOrderIDEntries.length

def SummaryEntry.ofItem (item : TradeSummary.Entry) : SummaryEntry :=
  { securityId := item.securityID, aggressorSide := item.aggressorSide.map
    price := price9 item.mDEntryPx, size := toInt32 item.mDEntrySize
    numberOfOrders := toSize item.numberOfOrders, tradeId := getInt item.mDTradeEntryID }

/-- There are more orders than the one of the aggressor. -/
def SummaryEntry.HasMakers (e : SummaryEntry) : Prop :=
  (if e.aggressorSide ≠ .undefined then 1 else 0) < e.numberOfOrders

/-- If the summary is complete, its entries of known securities have no makers. -/
def NoMakers (sd : SecurityDefinitions Qp Qo) (pending : PendingSummary) (value : TradeSummary) :
    Prop :=
  let p := pending.since value.transactTime
  p.Completes value → ∀ e ∈ p.tradeSummary ++ value.noMDEntries.map SummaryEntry.ofItem,
    (sd.getSecurity e.securityId).isSome → ¬ e.HasMakers

/-- No entry of a known security has the first report number. -/
def NoStart (sd : SecurityDefinitions Qp Qo) (message : Message) : Prop :=
  ∀ r ∈ checkedOf message, (sd.getSecurity r.1).isSome → r.2 ≠ 1

/-- The message does not lead to order updates of its own accord. -/
def Unprovoked (sd : SecurityDefinitions Qp Qo) (pending : PendingSummary) : Message → Prop
  | .tradeSummary48 value | .tradeSummaryLongQty65 value => NoMakers sd pending value
  | .dailyStatistics49 value => NoStart sd (.dailyStatistics49 value)
  | .sessionStatistics51 value => NoStart sd (.sessionStatistics51 value)
  | .sessionStatisticsLongQty67 value => NoStart sd (.sessionStatisticsLongQty67 value)
  | .volume37 value => NoStart sd (.volume37 value)
  | _ => True

/-- The delivery takes none of the three ways around the flag. -/
def Quiet (f : Feeds Qp Qo) : Delivery → Prop
  | .incremental _ _ _ message =>
    NoGap f.shared.securityDefinitions message ∧
      Unprovoked f.shared.securityDefinitions f.shared.pending message
  | _ => True

def QuietRun (env : Env Qp Qo) : List Delivery → Feeds Qp Qo → Prop
  | [], _ => True
  | d :: deliveries, f => Quiet f d ∧ QuietRun env deliveries (f.step env d)

/-- The action does not go to the order book. -/
def Action.NoOrders : Action → Prop
  | .dispatchMarketByOrder _ _ | .dispatchOrderBook47 _ => False
  | _ => True

theorem Action.op_silent (env : Env Qp Qo) (ctx : Context) (a : Action) (ha : a.NoOrders)
    (hr : ∀ r, a ≠ .checkReportSequence r) (s : Security Qp Qo) :
    ∀ e ∈ (a.op env ctx s).2, ¬ MboOutput e := by
  intro e he
  cases a with
  | checkReportSequence r => exact absurd rfl (hr r)
  | dispatchMarketByOrder | dispatchOrderBook47 => exact ha.elim
  | topOfBook | tradeSummary | statistics | marketStatus =>
    rw [List.mem_singleton.1 he]
    exact id
  | referenceData value =>
    cases List.mem_cons.1 he with
    | inl he => rw [he]; exact id
    | inr he =>
      split at he
      · cases he
      · rw [List.mem_singleton.1 he]
        exact id
  | dispatchMarketByPrice =>
    obtain ⟨levels, n, mode, rfl⟩ | he := dispatchMarketByPrice_effects env ctx _ _ _ s e he
    · exact id
    · cases he with
      | price | mark | clear => exact id

/-- A check that finds no gap leaves both books alone. -/
theorem checkReportSequence_silent (env : Env Qp Qo) (ctx : Context) (r : Nat)
    (s : Security Qp Qo) (h : r = 0 ∨ r = u32 (s.rptSeq + 1)) :
    (checkReportSequence env ctx r s).2 = [.updateRptSeq r false] ∧
      (checkReportSequence env ctx r s).1.rptSeq = if r = 0 then s.rptSeq else r := by
  by_cases h0 : r = 0
  · simp [checkReportSequence, Security.updateRptSeq, h0]
  · have hn : r = u32 (s.rptSeq + 1) := h.resolve_left h0
    simp [checkReportSequence, Security.updateRptSeq, h0, ← hn]

/-- A call to a security whose numbers go on without a gap is silent, and leaves the rest to go
on from there. -/
theorem Call.silent (env : Env Qp Qo) (ctx : Context) (call : Call) (hno : call.action.NoOrders)
    (t : Security Qp Qo) (rest : List Nat)
    (h : InSequence t.rptSeq (reportOf call.securityId call ++ rest)) :
    (∀ e ∈ (call.action.op env ctx t).2, ¬ MboOutput e) ∧
      InSequence (call.action.op env ctx t).1.rptSeq rest := by
  by_cases hrep : ∃ n, call.action = .checkReportSequence n
  · obtain ⟨n, ha⟩ := hrep
    have hlist : reportOf call.securityId call = [n] := by simp only [reportOf, ha, if_true]
    rw [hlist, List.singleton_append] at h
    obtain ⟨heff, hnext⟩ := checkReportSequence_silent env ctx n t h.1
    rw [ha]
    simp only [Action.op]
    rw [heff, hnext]
    refine ⟨?_, h.2⟩
    intro e he
    rw [List.mem_singleton.1 he]
    exact id
  · have hnr : ∀ n, call.action ≠ .checkReportSequence n := fun n ha => hrep ⟨n, ha⟩
    rw [reportOf_observer call.securityId call.securityId call.action hnr, List.nil_append] at h
    rw [(Action.op_rptSeq env ctx call.action t hnr).1]
    exact ⟨Action.op_silent env ctx call.action hno hnr t, h⟩

theorem performAll_silent (env : Env Qp Qo) (ctx : Context) (calls : List Call)
    (shared : Shared Qp Qo) (hcalls : ∀ c ∈ calls, c.action.NoOrders)
    (hseq : ∀ securityId s, shared.securityDefinitions.securities securityId = some s →
      InSequence s.rptSeq (calls.flatMap (reportOf securityId)))
    (r : Record) (hr : r ∈ (performAll env ctx calls shared).trace) :
    r ∈ shared.trace ∨ ∀ e ∈ r.effects, ¬ MboOutput e := by
  induction calls generalizing shared with
  | nil => exact Or.inl hr
  | cons call calls ih =>
    have hno := hcalls call (by simp)
    have hrest := fun c hc => hcalls c (List.mem_cons_of_mem call hc)
    cases hs : shared.securityDefinitions.securities call.securityId with
    | none =>
      have hskip : call.perform env ctx shared = shared := by
        simp only [Call.perform, Shared.onSecurity, hs]
      refine ih shared hrest ?_ (by rw [performAll, List.foldl_cons, hskip] at hr; exact hr)
      intro securityId s hsome
      have hc := hseq securityId s hsome
      have hne : call.securityId ≠ securityId := by
        rintro rfl
        rw [hs] at hsome
        cases hsome
      rwa [List.flatMap_cons, reportOf_ne hne, List.nil_append] at hc
    | some t =>
      have hhere := hseq call.securityId t hs
      rw [List.flatMap_cons] at hhere
      obtain ⟨hsilent, hgoes⟩ := call.silent env ctx hno t _ hhere
      have hperf : call.perform env ctx shared =
          { shared with
            securityDefinitions := shared.securityDefinitions.setSecurity call.securityId
              (call.action.op env ctx t).1
            trace := shared.trace ++
              [⟨call.securityId, call.action.site, (call.action.op env ctx t).2⟩] } := by
        simp only [Call.perform, Shared.onSecurity, hs]
      have hnext := ih (call.perform env ctx shared) hrest (by
        intro securityId s hsome
        rw [hperf] at hsome
        simp only [SecurityDefinitions.setSecurity] at hsome
        by_cases he : securityId = call.securityId
        · subst he
          rw [Function.update_self] at hsome
          cases hsome
          exact hgoes
        · rw [Function.update_of_ne he] at hsome
          have hc := hseq securityId s hsome
          rwa [List.flatMap_cons, reportOf_ne (Ne.symm he), List.nil_append] at hc) hr
      cases hnext with
      | inr h => exact Or.inr h
      | inl h =>
        rw [hperf] at h
        cases List.mem_append.1 h with
        | inl h => exact Or.inl h
        | inr h =>
          rw [List.mem_singleton.1 h]
          exact Or.inr hsilent

namespace Book46Loop

/-- No order update is waiting or has been handed on. -/
def NoOrders (s : Book46Loop Qp Qo) : Prop :=
  s.orders = [] ∧ ∀ c ∈ s.calls, c.action.NoOrders

/-- Without the option no price level is cleared in the order book. -/
theorem run_noOrders (options : Options) (ho : options.enableMarketByOrder = false)
    (get : Lookup Qp Qo) (items : List Book46.Entry) : (run options get items).NoOrders := by
  refine run_orders_calls
    (I := fun orders calls => orders = [] ∧ ∀ c ∈ calls, c.action.NoOrders) ?_ ?_ ?_
    ⟨rfl, fun c hc => by cases hc⟩ get items
  · rintro orders calls i action ha ⟨horders, hcalls⟩
    rw [List.forall_mem_append, List.forall_mem_singleton]
    refine ⟨horders, hcalls, ?_⟩
    cases action with
    | dispatchMarketByOrder | dispatchOrderBook47 => exact ha rfl
    | _ => trivial
  · intro orders calls i hne h
    exact absurd h.1 hne
  · rintro orders calls item security ⟨rfl, hcalls⟩
    exact ⟨by simp [clearPriceLevel, ho], hcalls⟩

end Book46Loop

theorem dispatchStatistics_noOrders {τ : Type} (get : Lookup Qp Qo) (cache : Cache)
    (pending : PendingSummary) (callback : StatisticsEntry τ → Security Qp Qo → Statistics)
    (value : StatisticsMessage τ)
    (h : ∀ r ∈ visited (value.noMDEntries.map fun item => (item.securityID, item.rptSeq)),
      (get r.1).isSome → r.2 ≠ 1) :
    ∀ c ∈ (dispatchStatistics get cache pending callback value).calls, c.action.NoOrders := by
  refine SecurityIterator.run_rule get StatisticsEntry.securityID _ _
    (fun _ (t : List Statistics × List Call) => ∀ c ∈ t.2, c.action.NoOrders)
    value.noMDEntries ([], []) ?_ ?_ ?_ ?_
  · intro c hc
    cases hc
  · intro i found _ t ht
    split
    · exact ht
    · intro c hc
      cases List.mem_append.1 hc with
      | inl hc => exact ht c hc
      | inr hc => rw [List.mem_singleton.1 hc]; trivial
  · intro i found _ t item hmem _ hk ht c hc
    have hne : item.rptSeq ≠ 1 := by
      refine h (item.securityID, item.rptSeq) ?_ hk
      rw [visited, List.dropWhile_map]
      exact List.mem_map_of_mem hmem
    rw [if_neg hne] at hc
    cases List.mem_append.1 hc with
    | inl hc => exact ht c hc
    | inr hc => rw [List.mem_singleton.1 hc]; trivial
  · intro _ t item _ ht
    exact ht

theorem reportOnly_noOrders (get : Lookup Qp Qo) (cache : Cache) (pending : PendingSummary)
    (items : List ReportEntry) :
    ∀ c ∈ (reportOnly get cache pending items).calls, c.action.NoOrders := by
  intro c hc
  obtain ⟨r, h⟩ := reportOnly_action get cache pending items c hc
  rw [h]
  trivial

theorem addEntry_spec (p : PendingSummary) (item : TradeSummary.Entry) :
    (p.addEntry item).tradeSummary = p.tradeSummary ++ [SummaryEntry.ofItem item] ∧
      (p.addEntry item).totalNumberOfOrders =
        u64 (p.totalNumberOfOrders + toSize item.numberOfOrders) ∧
      (p.addEntry item).orders = p.orders := by
  simp only [PendingSummary.addEntry, PendingSummary.insertSecurityId]
  split
  · exact ⟨rfl, rfl, rfl⟩
  · exact ⟨rfl, rfl, rfl⟩

theorem addEntries_spec (items : List TradeSummary.Entry) (p : PendingSummary) :
    (items.foldl PendingSummary.addEntry p).tradeSummary =
        p.tradeSummary ++ items.map SummaryEntry.ofItem ∧
      (items.foldl PendingSummary.addEntry p).totalNumberOfOrders =
        items.foldl (fun n item => u64 (n + toSize item.numberOfOrders)) p.totalNumberOfOrders ∧
      (items.foldl PendingSummary.addEntry p).orders = p.orders := by
  induction items generalizing p with
  | nil => simp
  | cons item items ih =>
    obtain ⟨h1, h2, h3⟩ := addEntry_spec p item
    obtain ⟨ih1, ih2, ih3⟩ := ih (p.addEntry item)
    simp only [List.foldl_cons, List.map_cons]
    refine ⟨?_, ?_, ?_⟩
    · rw [ih1, h1, List.append_assoc, List.singleton_append]
    · rw [ih2, h2]
    · rw [ih3, h3]

theorem addOrders_spec (items : List TradeSummary.OrderEntry) (p : PendingSummary) :
    (items.foldl PendingSummary.addOrder p).tradeSummary = p.tradeSummary ∧
      (items.foldl PendingSummary.addOrder p).totalNumberOfOrders = p.totalNumberOfOrders ∧
      (items.foldl PendingSummary.addOrder p).orders.length = p.orders.length + items.length := by
  induction items generalizing p with
  | nil => simp
  | cons item items ih =>
    obtain ⟨ih1, ih2, ih3⟩ := ih (p.addOrder item)
    refine ⟨ih1, ih2, ?_⟩
    rw [List.foldl_cons, ih3]
    simp only [PendingSummary.addOrder, List.length_append, List.length_cons, List.length_nil]
    omega

/-- The state of the assembly in terms of what was pending and the message. -/
theorem assemble_spec (p : PendingSummary) (value : TradeSummary) :
    (p.assemble value).tradeSummary = (p.since value.transactTime).tradeSummary ++
        value.noMDEntries.map SummaryEntry.ofItem ∧
      ((p.since value.transactTime).Completes value ↔
        (p.assemble value).totalNumberOfOrders ≤ (p.assemble value).orders.length) := by
  obtain ⟨h1, h2, h3⟩ := addEntries_spec value.noMDEntries (p.since value.transactTime)
  obtain ⟨k1, k2, k3⟩ := addOrders_spec value.noOrderIDEntries
    (value.noMDEntries.foldl PendingSummary.addEntry (p.since value.transactTime))
  have hassemble : p.assemble value = value.noOrderIDEntries.foldl PendingSummary.addOrder
      (value.noMDEntries.foldl PendingSummary.addEntry (p.since value.transactTime)) := rfl
  rw [hassemble, k1, h1, k2, h2, k3, h3]
  exact ⟨rfl, Iff.rfl⟩

theorem ordersFrom_nil (orders : List (Nat × Int)) {offset offset2 n : Nat} (h : n ≤ offset2) :
    ordersFrom orders offset offset2 n = some [] := by
  rw [ordersFrom, if_pos h]

theorem mboUpdates_nil (e : SummaryEntry) (he : ¬ e.HasMakers) (factor : Double)
    (orders : List (Nat × Int)) (offset : Nat) (updates : List MBOUpdate)
    (h : e.mboUpdates factor orders offset = some updates) : updates = [] := by
  simp only [SummaryEntry.HasMakers, Nat.not_lt] at he
  unfold SummaryEntry.mboUpdates at h
  split at h
  · next ha =>
    rw [if_pos ha] at he
    split at h
    · cases h
    · rw [ordersFrom_nil orders he] at h
      simpa using h.symm
  · next ha =>
    rw [if_neg ha] at he
    rw [ordersFrom_nil orders he] at h
    simpa using h.symm

theorem collect_nil {δ : Type} (f : SummaryEntry → Nat → Option (List δ)) (securityId : Int)
    (offset : Nat) (entries : List SummaryEntry)
    (hf : ∀ e ∈ entries, e.securityId = securityId → ∀ n items, f e n = some items → items = [])
    (items : List δ) (h : collect f securityId offset entries = some items) : items = [] := by
  induction entries generalizing offset items with
  | nil => simpa [collect] using h.symm
  | cons e entries ih =>
    unfold collect at h
    split at h
    · next here later hh hl =>
      have hlater := ih _ (fun e' he' => hf e' (List.mem_cons_of_mem e he')) later hl
      have hhere : here = [] := by
        by_cases hs : securityId = e.securityId
        · rw [if_pos hs] at hh
          exact hf e (by simp) hs.symm _ here hh
        · rw [if_neg hs] at hh
          simpa using hh.symm
      rw [hhere, hlater] at h
      simpa using h.symm
    · cases h

theorem forSecurities_nil {δ : Type} (get : Lookup Qp Qo)
    (content : Int → Security Qp Qo → Option (List δ)) (action : List δ → Action) (ids : List Int)
    (hc : ∀ i s, get i = some s → ∀ items, content i s = some items → items = [])
    (calls : List Call) (h : forSecurities get content action ids = some calls) : calls = [] := by
  induction ids generalizing calls with
  | nil => simpa [forSecurities] using h.symm
  | cons i ids ih =>
    cases hg : get i with
    | none =>
      simp only [forSecurities, hg] at h
      exact ih calls h
    | some s =>
      cases hl : forSecurities get content action ids with
      | none => simp only [forSecurities, hg, hl, reduceCtorEq] at h
      | some later =>
        simp only [forSecurities, hg, hl, Option.map_eq_some_iff] at h
        obtain ⟨items, hi, rfl⟩ := h
        rw [if_pos (hc i s hg items hi)]
        exact ih later hl

/-- A complete summary without makers leads to trades only. -/
theorem PendingSummary.calls_noOrders (get : Lookup Qp Qo) (p : PendingSummary)
    (h : ∀ e ∈ p.tradeSummary, (get e.securityId).isSome → ¬ e.HasMakers) (calls : List Call)
    (hcalls : p.calls get = some calls) : ∀ c ∈ calls, c.action.NoOrders := by
  simp only [PendingSummary.calls] at hcalls
  split at hcalls
  · next mbo trades hm ht =>
    have hnil : mbo = [] := by
      refine forSecurities_nil get _ _ _ ?_ mbo hm
      intro i s hg items hi
      refine collect_nil _ i 0 p.tradeSummary ?_ items hi
      intro e he hid n updates hu
      refine mboUpdates_nil e (h e he ?_) _ _ n updates hu
      rw [hid, hg]
      rfl
    subst hnil
    simp only [List.nil_append, Option.some.injEq] at hcalls
    subst hcalls
    intro c hc
    obtain ⟨items, -, he⟩ := forSecurities_action get _ _ _ trades ht c hc
    rw [he]
    trivial
  · cases hcalls

theorem reportCalls_noOrders (get : Lookup Qp Qo) (items : List TradeSummary.Entry) :
    ∀ c ∈ reportCalls get items, c.action.NoOrders := by
  intro c hc
  obtain ⟨r, h⟩ := reportCalls_action get items c hc
  rw [h]
  trivial

theorem dispatchTradeSummary_noOrders (sd : SecurityDefinitions Qp Qo) (cache : Cache)
    (pending : PendingSummary) (value : TradeSummary) (h : NoMakers sd pending value) :
    ∀ c ∈ (dispatchTradeSummary sd.getSecurity cache pending value).calls, c.action.NoOrders := by
  obtain ⟨hentries, hcomplete⟩ := assemble_spec pending value
  simp only [dispatchTradeSummary]
  split
  · exact reportCalls_noOrders _ _
  · next hlen =>
    split
    · next calls hcalls =>
      intro c hc
      cases List.mem_append.1 hc with
      | inl hc => exact reportCalls_noOrders _ _ c hc
      | inr hc =>
        refine PendingSummary.calls_noOrders sd.getSecurity _ ?_ calls hcalls c hc
        rw [hentries]
        exact h (hcomplete.2 (by omega))
    · exact reportCalls_noOrders _ _

theorem react_noOrders (options : Options) (ho : options.enableMarketByOrder = false)
    (sd : SecurityDefinitions Qp Qo) (cache : Cache) (pending : PendingSummary)
    (message : Message) (h : Unprovoked sd pending message) :
    ∀ c ∈ (react options sd cache pending message).calls, c.action.NoOrders := by
  cases message with
  | adminHeartbeat12 | channelReset4 | quoteRequest39 | snapshotFullRefresh52
  | snapshotFullRefreshLongQty69 | snapshotFullRefreshOrderBook53 =>
    intro c hc
    cases hc
  | securityStatus30 value =>
    intro c hc
    obtain ⟨status, hs⟩ := securityStatus30_calls sd cache pending value c hc
    rw [hs]
    trivial
  | instrumentDefinition value =>
    intro c hc
    rw [instrumentDefinition_calls sd cache pending value c hc]
    trivial
  | book46 value =>
    simp only [react, book46, ho, Bool.false_eq_true, if_false]
    exact (Book46Loop.run_noOrders options ho sd.getSecurity value.noMDEntries).2
  | orderBook47 value =>
    simp only [react, orderBook47, ho, Bool.false_eq_true, if_false]
    intro c hc
    cases hc
  | bookLongQty64 items | volumeLongQty66 items | limitsBanding50 items =>
    exact reportOnly_noOrders sd.getSecurity cache pending items
  | tradeSummary48 value | tradeSummaryLongQty65 value =>
    exact dispatchTradeSummary_noOrders sd cache pending value h
  | dailyStatistics49 value | sessionStatistics51 value | sessionStatisticsLongQty67 value
  | volume37 value =>
    exact dispatchStatistics_noOrders sd.getSecurity cache pending _ value h

theorem incremental_silent (env : Env Qp Qo) (ho : env.options.enableMarketByOrder = false)
    (channelId streamId : Nat) (frame : Frame) (message : Message) (f : Feeds Qp Qo)
    (hq : Quiet f (.incremental channelId streamId frame message)) (r : Record)
    (hr : r ∈ (f.step env (.incremental channelId streamId frame message)).shared.trace) :
    r ∈ f.shared.trace ∨ ∀ e ∈ r.effects, ¬ MboOutput e := by
  obtain ⟨hgap, hun⟩ := hq
  have hcalls := react_noOrders env.options ho f.shared.securityDefinitions (f.caches channelId)
    f.shared.pending message hun
  refine (performAll_silent env _ _ _ hcalls · r hr) ?_
  intro securityId s hs
  rw [react_reports env.options f.shared.securityDefinitions (f.caches channelId)
    f.shared.pending message (reportOf_observer securityId), expected_reportOf]
  cases hk : f.shared.securityDefinitions.getSecurity securityId with
  | none => trivial
  | some t =>
    have ht : f.shared.securityDefinitions.securities securityId = some t :=
      (Option.filter_eq_some_iff.1 hk).1
    have hst := (definitionsAfter_known env message ht).symm.trans hs
    simp only [Option.some.injEq] at hst
    subst hst
    exact hgap securityId t hk

/-- A recovery feed is not the incremental one. -/
theorem recovery_silent (shared : Shared Qp Qo) (securityId : Int) {site : Site}
    (hsite : site.isIncremental = false) (op : SecurityOp Qp Qo) (r : Record)
    (hr : r ∈ (shared.onSecurity securityId site op).trace) :
    r ∈ shared.trace ∨ (r.site.isIncremental = true → ∀ e ∈ r.effects, ¬ MboOutput e) := by
  cases mem_trace_onSecurity shared securityId site op r hr with
  | inl h => exact Or.inl h
  | inr h =>
    obtain ⟨s, -, rfl⟩ := h
    right
    intro hinc
    rw [hsite] at hinc
    cases hinc

theorem step_silent (env : Env Qp Qo) (ho : env.options.enableMarketByOrder = false)
    (d : Delivery) (f : Feeds Qp Qo) (hq : Quiet f d) (r : Record)
    (hr : r ∈ (f.step env d).shared.trace) :
    r ∈ f.shared.trace ∨ (r.site.isIncremental = true → ∀ e ∈ r.effects, ¬ MboOutput e) := by
  cases d with
  | incremental channelId streamId frame message =>
    cases incremental_silent env ho channelId streamId frame message f hq r hr with
    | inl h => exact Or.inl h
    | inr h => exact Or.inr fun _ => h
  | sequenceReset channelId => exact Or.inl hr
  | instrumentDefinition streamId frame message =>
    simp only [Feeds.step, InstrumentDefinition.onMessage] at hr
    split at hr
    · next value =>
      split at hr
      · exact Or.inl hr
      · cases mem_trace_performAll env _ _ _ r hr with
        | inl h => exact Or.inl h
        | inr h =>
          obtain ⟨call, hc, s, rfl⟩ := h
          rw [List.mem_singleton.1 hc]
          right
          intro _
          exact Action.op_silent env _ (.referenceData value) trivial (by simp) s
    · exact Or.inl hr
  | mbpRecovery streamId frame sequence message =>
    simp only [Feeds.step, MBPMarketRecovery.onMessage] at hr
    split at hr
    · split at hr
      · exact recovery_silent f.shared _ rfl _ r hr
      · exact Or.inl hr
    · split at hr
      · exact recovery_silent f.shared _ rfl _ r hr
      · exact Or.inl hr
    · exact Or.inl hr
  | mbofdRecovery streamId sequence message =>
    simp only [Feeds.step, MBOFDMarketRecovery.onMessage] at hr
    split at hr
    · split at hr
      · exact recovery_silent f.shared _ rfl _ r hr
      · exact Or.inl hr
    · exact Or.inl hr

/-- With the flag off, a run whose deliveries are all quiet has no order output from the
incremental feed, whatever templates, channels and securities it mixes. -/
theorem market_by_order_opt_in (env : Env Qp Qo) (ho : env.options.enableMarketByOrder = false)
    (deliveries : List Delivery) (f : Feeds Qp Qo)
    (h : ∀ r ∈ f.shared.trace, r.site.isIncremental = true → ∀ e ∈ r.effects, ¬ MboOutput e)
    (hq : QuietRun env deliveries f) :
    ∀ r ∈ (Feeds.run env deliveries f).shared.trace, r.site.isIncremental = true →
      ∀ e ∈ r.effects, ¬ MboOutput e := by
  induction deliveries generalizing f with
  | nil => exact h
  | cons d deliveries ih =>
    refine ih (f.step env d) ?_ hq.2
    intro r hr
    cases step_silent env ho d f hq.1 r hr with
    | inl hr => exact h r hr
    | inr hr => exact hr

/-- With consecutive reports for one security no check finds a gap. -/
theorem noGap_single {sd : SecurityDefinitions Qp Qo} {message : Message} (securityId : Int)
    (last : Nat) (hc : checkedOf message = [(securityId, u32 (last + 1))])
    (hs : (sd.securities securityId).map Security.rptSeq = some last) : NoGap sd message := by
  intro i s hk
  rw [hc]
  by_cases he : i = securityId
  · subst he
    have ht : sd.securities i = some s := (Option.filter_eq_some_iff.1 hk).1
    rw [ht, Option.map_some, Option.some.injEq] at hs
    simp [InSequence, hs]
  · simp [InSequence, Ne.symm he]

/-- A bid with report 1 and a limits message with report 2 for the same security. -/
theorem market_by_order_opt_in_two_reports :
    let env := Env.direct {}
    let bid : Book46.Entry :=
      { mDEntryPx := some 5000000000000, mDEntrySize := some 10, securityID := 7, rptSeq := 1
        numberOfOrders := some 2, mDPriceLevel := some 1, mDUpdateAction := .new
        mDEntryType := .bid }
    let f := Feeds.ofSecDefs env [SecDef.sample 7 "ESZ5"]
    let deliveries : List Delivery :=
      [.incremental 310 1 ⟨10, 0⟩ (.book46 ⟨0, [bid], []⟩),
        .incremental 310 1 ⟨11, 0⟩ (.limitsBanding50 [⟨7, 2⟩])]
    (Feeds.run env deliveries f).shared.trace.length = 3 ∧
      ∀ r ∈ (Feeds.run env deliveries f).shared.trace, r.site.isIncremental = true →
        ∀ e ∈ r.effects, ¬ MboOutput e := by
  intro env bid f deliveries
  refine ⟨by decide +kernel, market_by_order_opt_in env rfl deliveries f ?_ ?_⟩
  · intro r hr
    cases hr
  · refine ⟨⟨noGap_single 7 0 rfl ?_, trivial⟩, ⟨noGap_single 7 1 rfl ?_, trivial⟩, trivial⟩
    · decide +kernel
    · decide +kernel

/-- With the flag off: a skipped report number, a trade with one maker, and statistics with the
first report number each lead to order output. -/
theorem market_by_order_without_flag :
    let env := Env.direct {}
    let f := Feeds.ofSecDefs env [SecDef.sample 7 "ESZ5"]
    let trade : TradeSummary.Entry :=
      { mDEntryPx := 5000000000000, mDEntrySize := 10, securityID := 7, rptSeq := 1
        numberOfOrders := 2, mDTradeEntryID := some 1, aggressorSide := .buy }
    let statistics : StatisticsEntry MDEntryTypeStatistics :=
      { mDEntryPx := 5000000000000, mDEntrySize := none, securityID := 7, rptSeq := 1
        mDEntryType := .openPrice }
    let messages : List Message :=
      [.limitsBanding50 [⟨7, 3⟩], .tradeSummary48 ⟨1, [trade], [⟨100, 10⟩, ⟨200, 10⟩]⟩,
        .sessionStatistics51 ⟨1, [statistics]⟩]
    env.options.enableMarketByOrder = false ∧ ∀ message ∈ messages,
      ∃ r ∈ (Feeds.run env [.incremental 310 1 ⟨10, 0⟩ message] f).shared.trace,
        r.site.isIncremental = true ∧ ∃ e ∈ r.effects, MboOutput e := by
  decide +kernel

end RoqCme.MarketData
