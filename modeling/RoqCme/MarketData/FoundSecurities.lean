import RoqCme.MarketData.Reports

/-! The handlers make their calls for securities that they have looked up, apart from the reference
data of a definition. -/
namespace RoqCme.MarketData
open RoqCme.Mdp RoqCme.Tools
variable {Qp Qo : Type} {get : Lookup Qp Qo}

/-- All calls are for securities that the lookup finds. -/
def Lookup.Knows (get : Lookup Qp Qo) (calls : List Call) : Prop :=
  ∀ c ∈ calls, (get c.securityId).isSome

theorem Lookup.Knows.nil : get.Knows [] :=
  fun _ hc => by cases hc

theorem Lookup.Knows.append {xs ys : List Call} (hx : get.Knows xs) (hy : get.Knows ys) :
    get.Knows (xs ++ ys) := by
  intro c hc
  cases List.mem_append.1 hc with
  | inl hc => exact hx c hc
  | inr hc => exact hy c hc

theorem Lookup.Knows.cons {call : Call} {calls : List Call} (h : (get call.securityId).isSome)
    (hc : get.Knows calls) : get.Knows (call :: calls) := by
  intro c hm
  cases List.mem_cons.1 hm with
  | inl he => rw [he]; exact h
  | inr hm => exact hc c hm

/-- The security that a loop works on was found. -/
def Lookup.Holds (get : Lookup Qp Qo) (security : Option (Found Qp Qo)) : Prop :=
  ∀ found, security = some found → (get found.securityId).isSome

theorem Lookup.holds_none : get.Holds none :=
  fun _ h => by cases h

theorem Lookup.holds_find (get : Lookup Qp Qo) (securityId : Int) :
    get.Holds (get.find securityId) := by
  intro found h
  obtain ⟨hid, hk⟩ := find_self h
  rw [hid]
  exact hk

section SecurityIterator
variable {α τ : Type} {securityID : α → Int}
variable {dispatch : Int → Found Qp Qo → τ → τ} {callback : Int → Found Qp Qo → α → τ → τ}

/-- What both lambdas keep for known securities is kept by the loop. -/
theorem SecurityIterator.run_known (P : τ → Prop)
    (hd : ∀ i found t, (get found.securityId).isSome → P t → P (dispatch i found t))
    (hc : ∀ i found item t, (get found.securityId).isSome → P t → P (callback i found item t))
    (items : List α) (s : τ) (h0 : P s) :
    P (SecurityIterator.run get securityID dispatch callback items s) := by
  let Inv : SecurityIterator Qp Qo τ → Prop := fun it => get.Holds it.security ∧ P it.state
  have hstep : ∀ it : SecurityIterator Qp Qo τ, Inv it → ∀ item,
      Inv (SecurityIterator.step get securityID dispatch callback it item) := by
    intro it h item
    have henter : Inv (SecurityIterator.enter get dispatch it (securityID item)) := by
      unfold SecurityIterator.enter
      split
      · refine ⟨get.holds_find _, ?_⟩
        cases hs : it.security with
        | none => exact h.2
        | some found => exact hd _ found _ (h.1 found hs) h.2
      · exact h
    unfold SecurityIterator.step SecurityIterator.visit
    split
    · next found hs => exact ⟨henter.1, hc _ found item _ (henter.1 found hs) henter.2⟩
    · exact henter
  have hfold : Inv (items.foldl (SecurityIterator.step get securityID dispatch callback)
      { state := s }) :=
    List.foldlRecOn items _ ⟨Lookup.holds_none, h0⟩ fun it hit item _ => hstep it hit item
  unfold SecurityIterator.run
  simp only
  split
  · next found hs => exact hd _ found _ (hfold.1 found hs) hfold.2
  · exact hfold.2

end SecurityIterator

namespace Book46Loop

structure Known (get : Lookup Qp Qo) (s : Book46Loop Qp Qo) : Prop where
  security : get.Holds s.security
  calls : get.Knows s.calls

theorem Known.call {s : Book46Loop Qp Qo} (h : s.Known get) {found : Found Qp Qo}
    (hf : (get found.securityId).isSome) (action : Action) : (s.call found action).Known get :=
  ⟨h.security, h.calls.append (.cons hf .nil)⟩

theorem Known.dispatch {s : Book46Loop Qp Qo} (h : s.Known get) : s.dispatch.Known get := by
  unfold Book46Loop.dispatch
  cases hs : s.security with
  | none => exact h
  | some found =>
    have hf := h.security found hs
    have htop : (s.dispatchTopOfBook found).Known get := by
      unfold dispatchTopOfBook
      split
      · exact ⟨h.security, (h.call hf _).calls⟩
      · exact h
    have hprices : ((s.dispatchTopOfBook found).dispatchPrices found).Known get := by
      unfold dispatchPrices
      split
      · exact ⟨htop.security, (htop.call hf _).calls⟩
      · exact htop
    simp only [dispatchOrders]
    split
    · exact ⟨hprices.security, (hprices.call hf _).calls⟩
    · exact hprices

theorem Known.process {s : Book46Loop Qp Qo} (h : s.Known get) (options : Options)
    (item : Book46.Entry) : (s.process options get item).Known get := by
  have henter : (s.enter get item.securityID).Known get := by
    unfold enter
    split
    · exact ⟨get.holds_find _, h.dispatch.calls⟩
    · exact h
  have hflag : ((s.enter get item.securityID).flag item).Known get := by
    unfold flag
    split
    · exact ⟨henter.security, henter.calls⟩
    · exact henter
  have hreport : (((s.enter get item.securityID).flag item).report item).Known get := by
    unfold report
    split
    · next found hs => exact hflag.call (hflag.security found hs) _
    · exact hflag
  have hremember :
      ((((s.enter get item.securityID).flag item).report item).remember options item).Known get := by
    simp only [remember]
    split
    · exact ⟨hreport.security, hreport.calls⟩
    · exact hreport
  obtain ⟨-, hs, hc⟩ := collect_same options
    ((((s.enter get item.securityID).flag item).report item).remember options item) item
  refine ⟨?_, ?_⟩
  · rw [Book46Loop.process, hs]
    exact hremember.security
  · rw [Book46Loop.process, hc]
    exact hremember.calls

theorem run_known (options : Options) (get : Lookup Qp Qo) (items : List Book46.Entry) :
    (run options get items).Known get := by
  apply Known.dispatch
  have hinit : ({} : Book46Loop Qp Qo).Known get := ⟨Lookup.holds_none, .nil⟩
  exact List.foldlRecOn items _ hinit fun s hs item _ => hs.process options item

end Book46Loop

namespace Order46Loop

structure Known (get : Lookup Qp Qo) (s : Order46Loop Qp Qo) : Prop where
  security : get.Holds s.security
  calls : get.Knows s.calls

theorem Known.dispatch {s : Order46Loop Qp Qo} (h : s.Known get) (b : Bool) :
    (s.dispatch b).Known get := by
  unfold Order46Loop.dispatch
  cases hs : s.security with
  | none => exact h
  | some found =>
    have hf := h.security found hs
    simp only
    split
    · exact h
    · refine ⟨?_, h.calls.append (.cons hf .nil)⟩
      intro other ho
      cases ho
      exact hf

theorem Known.process {s : Order46Loop Qp Qo} (h : s.Known get) (mdEntries : List MdEntry)
    (b : Bool) (item : Book46.OrderEntry) : (s.process get mdEntries b item).Known get := by
  simp only [Order46Loop.process]
  split
  · exact h
  · split
    · exact h
    · next entry _ =>
      have henter : (s.enter get b entry.securityId).Known get := by
        unfold enter
        split
        · exact ⟨get.holds_find _, (h.dispatch b).calls⟩
        · exact h
      unfold collect
      split
      · exact ⟨henter.security, henter.calls⟩
      · exact henter

theorem run_known (get : Lookup Qp Qo) (mdEntries : List MdEntry) (b : Bool)
    (orders : List MBOUpdate) (items : List Book46.OrderEntry) :
    (run get mdEntries b orders items).Known get := by
  apply Known.dispatch
  have hinit : ({ orders := orders } : Order46Loop Qp Qo).Known get := ⟨Lookup.holds_none, .nil⟩
  exact List.foldlRecOn items _ hinit fun s hs item _ => hs.process mdEntries b item

end Order46Loop

theorem flush47_known (get : Lookup Qp Qo) (orders47 : List Order47) (ids : List Int)
    (orders : List MBOUpdate) : get.Knows (flush47 get orders47 ids orders).2 := by
  induction ids generalizing orders with
  | nil => exact .nil
  | cons securityId ids ih =>
    simp only [flush47]
    split
    · next hget => exact .cons (by rw [hget]; rfl) (ih [])
    · exact ih orders

theorem forSecurities_known {δ : Type} (get : Lookup Qp Qo)
    (content : Int → Security Qp Qo → Option (List δ)) (action : List δ → Action) (ids : List Int)
    (calls : List Call) (h : forSecurities get content action ids = some calls) :
    get.Knows calls := by
  induction ids generalizing calls with
  | nil =>
    cases h
    exact .nil
  | cons securityId ids ih =>
    cases hg : get securityId with
    | none =>
      simp only [forSecurities, hg] at h
      exact ih calls h
    | some security =>
      cases hl : forSecurities get content action ids with
      | none => simp only [forSecurities, hg, hl, reduceCtorEq] at h
      | some later =>
        simp only [forSecurities, hg, hl, Option.map_eq_some_iff] at h
        obtain ⟨items, -, rfl⟩ := h
        split
        · exact ih later hl
        · exact .cons (by rw [hg]; rfl) (ih later hl)

theorem dispatchTradeSummary_known (get : Lookup Qp Qo) (cache : Cache) (pending : PendingSummary)
    (value : TradeSummary) : get.Knows (dispatchTradeSummary get cache pending value).calls := by
  have hreports : get.Knows (reportCalls get value.noMDEntries) := by
    intro c hc
    obtain ⟨item, -, hm⟩ := List.mem_flatMap.1 hc
    split at hm
    · next hk =>
      rw [List.mem_singleton.1 hm]
      exact hk
    · cases hm
  simp only [dispatchTradeSummary]
  split
  · exact hreports
  · split
    · next calls hcalls =>
      apply hreports.append
      simp only [PendingSummary.calls] at hcalls
      split at hcalls
      · next mbo trades hm ht =>
        cases hcalls
        exact (forSecurities_known get _ _ _ mbo hm).append (forSecurities_known get _ _ _ trades ht)
      · cases hcalls
    · exact hreports

theorem dispatchStatistics_known {τ : Type} (get : Lookup Qp Qo) (cache : Cache)
    (pending : PendingSummary) (callback : StatisticsEntry τ → Security Qp Qo → Statistics)
    (value : StatisticsMessage τ) :
    get.Knows (dispatchStatistics get cache pending callback value).calls := by
  refine SecurityIterator.run_known (fun s : List Statistics × List Call => get.Knows s.2) ?_ ?_
    value.noMDEntries ([], []) .nil
  · intro _ found s hf h
    split
    · exact h
    · exact h.append (.cons hf .nil)
  · intro _ found item s hf h
    refine h.append (.cons hf ?_)
    split
    · exact .cons hf (.cons hf .nil)
    · exact .nil

theorem securityStatus30_known (sd : SecurityDefinitions Qp Qo) (cache : Cache)
    (pending : PendingSummary) (value : SecurityStatus30) :
    Lookup.Knows sd.getSecurity (securityStatus30 sd cache pending value).calls := by
  apply Lookup.Knows.append
  · split
    · beta_reduce
      split
      · rename_i hget
        exact .cons (by rw [hget]; rfl) .nil
      · exact .nil
    · exact .nil
  · split
    · intro c hc
      obtain ⟨securityId, -, hm⟩ := List.mem_flatMap.1 hc
      split at hm
      · rename_i hget
        have hc : c = _ := List.mem_singleton.1 hm
        rw [hc, hget]
        rfl
      · cases hm
    · exact .nil

/-- The definition that a message carries. -/
def definitionOf : Message → Option InstrumentDefinition
  | .instrumentDefinition value => some value
  | _ => none

/-- Only the handler of a definition makes a call for a security that it does not find. -/
theorem react_known (options : Options) (sd : SecurityDefinitions Qp Qo) (cache : Cache)
    (pending : PendingSummary) {message : Message} (h : definitionOf message = none) :
    Lookup.Knows sd.getSecurity (react options sd cache pending message).calls := by
  have hreports : ∀ items : List ReportEntry,
      Lookup.Knows sd.getSecurity (reportOnly sd.getSecurity cache pending items).calls := by
    intro items
    refine SecurityIterator.run_known (Lookup.Knows sd.getSecurity) ?_ ?_ items [] .nil
    · exact fun _ _ _ _ h => h
    · exact fun _ _ _ _ hf h => h.append (.cons hf .nil)
  cases message with
  | instrumentDefinition value => cases h
  | adminHeartbeat12 | channelReset4 | quoteRequest39 => exact .nil
  | snapshotFullRefresh52 | snapshotFullRefreshLongQty69 | snapshotFullRefreshOrderBook53 =>
    exact .nil
  | securityStatus30 value => exact securityStatus30_known sd cache pending value
  | bookLongQty64 items | volumeLongQty66 items | limitsBanding50 items => exact hreports items
  | tradeSummary48 value | tradeSummaryLongQty65 value =>
    exact dispatchTradeSummary_known sd.getSecurity cache pending value
  | dailyStatistics49 value | sessionStatistics51 value | sessionStatisticsLongQty67 value
  | volume37 value => exact dispatchStatistics_known sd.getSecurity cache pending _ value
  | book46 value =>
    have hmbp := Book46Loop.run_known options sd.getSecurity value.noMDEntries
    simp only [react, book46]
    split
    · exact hmbp.calls.append (Order46Loop.run_known sd.getSecurity _ _ _ _).calls
    · exact hmbp.calls
  | orderBook47 value =>
    simp only [react, orderBook47]
    split
    · split
      · exact .nil
      · exact flush47_known sd.getSecurity _ _ _
    · exact .nil

end RoqCme.MarketData
