import RoqCme.MarketData.Reports

/-! Where the handlers look. A handler reads the securities that the message names, and those of
the partial events it continues; its calls go to these and to no other security. -/
namespace RoqCme.MarketData
open RoqCme.Mdp RoqCme.Tools
variable {Qp Qo : Type} {K : Int → Prop}

/-- The securities whose books, trades, statistics or definition a message is about. -/
def securitiesOf : Message → List Int
  | .instrumentDefinition value => [value.securityID]
  | .orderBook47 value => value.noMDEntries.map OrderBook47.Entry.securityID
  | message => (reportsOf message).map Prod.fst

/-- The two lookups give the same answers within `K`. -/
def Lookup.Agree (K : Int → Prop) (get get' : Lookup Qp Qo) : Prop :=
  ∀ securityId, K securityId → get securityId = get' securityId

theorem Lookup.Agree.find {get get' : Lookup Qp Qo} (h : Lookup.Agree K get get')
    {securityId : Int} (hk : K securityId) : get.find securityId = get'.find securityId := by
  simp only [Lookup.find, h securityId hk]

theorem find_within {get : Lookup Qp Qo} {securityId : Int} (hk : K securityId)
    {found : Found Qp Qo} (h : get.find securityId = some found) : K found.securityId := by
  rw [(find_self h).1]
  exact hk

section SecurityIterator
variable {α τ : Type} {get get' : Lookup Qp Qo} {securityID : α → Int}
variable {dispatch : Int → Found Qp Qo → τ → τ} {callback : Int → Found Qp Qo → α → τ → τ}

theorem SecurityIterator.run_congr (h : Lookup.Agree K get get') (items : List α)
    (hk : ∀ item ∈ items, K (securityID item)) (s : τ) :
    SecurityIterator.run get securityID dispatch callback items s =
      SecurityIterator.run get' securityID dispatch callback items s := by
  have hfold : items.foldl (SecurityIterator.step get securityID dispatch callback)
      { state := s } = items.foldl (SecurityIterator.step get' securityID dispatch callback)
      { state := s } := by
    apply List.foldl_ext
    intro it item hi
    simp only [SecurityIterator.step, SecurityIterator.enter, h.find (hk item hi)]
  simp only [SecurityIterator.run, hfold]

/-- What both lambdas keep for the securities in `K` is kept by the loop. -/
theorem SecurityIterator.run_within (P : τ → Prop)
    (hd : ∀ i found t, K found.securityId → P t → P (dispatch i found t))
    (hc : ∀ i found item t, K found.securityId → P t → P (callback i found item t))
    (items : List α) (hk : ∀ item ∈ items, K (securityID item)) (s : τ) (h0 : P s) :
    P (SecurityIterator.run get securityID dispatch callback items s) := by
  let Inv : SecurityIterator Qp Qo τ → Prop := fun it =>
    (∀ found, it.security = some found → K found.securityId) ∧ P it.state
  have henter : ∀ it : SecurityIterator Qp Qo τ, Inv it → ∀ securityId, K securityId →
      Inv (SecurityIterator.enter get dispatch it securityId) := by
    intro it h securityId hid
    unfold SecurityIterator.enter
    split
    · refine ⟨fun found hf => find_within hid hf, ?_⟩
      cases hs : it.security with
      | none => exact h.2
      | some found => exact hd _ found _ (h.1 found hs) h.2
    · exact h
  have hfold : Inv (items.foldl (SecurityIterator.step get securityID dispatch callback)
      { state := s }) := by
    refine List.foldlRecOn items _ ⟨?_, h0⟩ ?_
    · intro found hf
      cases hf
    intro it hit item hi
    have he := henter it hit (securityID item) (hk item hi)
    unfold SecurityIterator.step SecurityIterator.visit
    split
    · next found hs => exact ⟨he.1, hc _ found item _ (he.1 found hs) he.2⟩
    · exact he
  unfold SecurityIterator.run
  simp only
  split
  · next found hs => exact hd _ found _ (hfold.1 found hs) hfold.2
  · exact hfold.2

end SecurityIterator

/-- All calls are for securities in `K`. -/
def CallsWithin (K : Int → Prop) (calls : List Call) : Prop :=
  ∀ c ∈ calls, K c.securityId

theorem CallsWithin.append {xs ys : List Call} (hx : CallsWithin K xs) (hy : CallsWithin K ys) :
    CallsWithin K (xs ++ ys) := by
  intro c hc
  cases List.mem_append.1 hc with
  | inl hc => exact hx c hc
  | inr hc => exact hy c hc

theorem CallsWithin.nil : CallsWithin K [] :=
  fun _ hc => by cases hc

theorem CallsWithin.cons {call : Call} {calls : List Call} (h : K call.securityId)
    (hc : CallsWithin K calls) : CallsWithin K (call :: calls) := by
  intro c hm
  cases List.mem_cons.1 hm with
  | inl he => rw [he]; exact h
  | inr hm => exact hc c hm

namespace Book46Loop

structure Within (K : Int → Prop) (s : Book46Loop Qp Qo) : Prop where
  security : ∀ found, s.security = some found → K found.securityId
  calls : CallsWithin K s.calls
  mdEntries : ∀ entry ∈ s.mdEntries, K entry.securityId

theorem Within.call {s : Book46Loop Qp Qo} (h : s.Within K) {found : Found Qp Qo}
    (hf : K found.securityId) (action : Action) : (s.call found action).Within K :=
  ⟨h.security, h.calls.append (.cons hf .nil), h.mdEntries⟩

theorem Within.dispatchTopOfBook {s : Book46Loop Qp Qo} (h : s.Within K) {found : Found Qp Qo}
    (hf : K found.securityId) : (s.dispatchTopOfBook found).Within K := by
  unfold Book46Loop.dispatchTopOfBook
  split
  · have hc := h.call hf (.topOfBook s.layer)
    exact ⟨hc.security, hc.calls, hc.mdEntries⟩
  · exact h

theorem Within.dispatchPrices {s : Book46Loop Qp Qo} (h : s.Within K) {found : Found Qp Qo}
    (hf : K found.securityId) : (s.dispatchPrices found).Within K := by
  unfold Book46Loop.dispatchPrices
  split
  · have hc := h.call hf (.dispatchMarketByPrice s.bids s.asks s.isSnapshot)
    exact ⟨hc.security, hc.calls, hc.mdEntries⟩
  · exact h

theorem Within.dispatchOrders {s : Book46Loop Qp Qo} (h : s.Within K) {found : Found Qp Qo}
    (hf : K found.securityId) : (s.dispatchOrders found).Within K := by
  unfold Book46Loop.dispatchOrders
  split
  · have hc := h.call hf (.dispatchMarketByOrder s.orders false)
    exact ⟨hc.security, hc.calls, hc.mdEntries⟩
  · exact h

theorem Within.dispatch {s : Book46Loop Qp Qo} (h : s.Within K) : s.dispatch.Within K := by
  unfold Book46Loop.dispatch
  cases hs : s.security with
  | none => exact h
  | some found =>
    have hf := h.security found hs
    exact ((h.dispatchTopOfBook hf).dispatchPrices hf).dispatchOrders hf

theorem Within.enter {get : Lookup Qp Qo} {s : Book46Loop Qp Qo} (h : s.Within K)
    {securityId : Int} (hk : K securityId) :
    (s.enter get securityId).Within K ∧ (s.enter get securityId).securityId = securityId := by
  unfold Book46Loop.enter
  split
  · exact ⟨⟨fun found hf => find_within hk hf, h.dispatch.calls, h.dispatch.mdEntries⟩, rfl⟩
  · next he => exact ⟨h, (not_not.1 he).symm⟩

theorem Within.report {s : Book46Loop Qp Qo} (h : s.Within K) (item : Book46.Entry) :
    (s.report item).Within K := by
  unfold Book46Loop.report
  split
  · next found hs => exact h.call (h.security found hs) _
  · exact h

theorem Within.remember {s : Book46Loop Qp Qo} (h : s.Within K) (options : Options)
    (item : Book46.Entry) (hk : K s.securityId) : (s.remember options item).Within K := by
  simp only [Book46Loop.remember]
  split
  · refine ⟨h.security, h.calls, ?_⟩
    intro entry he
    cases List.mem_append.1 he with
    | inl he => exact h.mdEntries entry he
    | inr he => rw [List.mem_singleton.1 he]; exact hk
  · exact h

theorem emplaceBack_mdEntries (s : Book46Loop Qp Qo) (item : Book46.Entry)
    (security : Security Qp Qo) : (s.emplaceBack item security).mdEntries = s.mdEntries := by
  unfold emplaceBack
  cases item.mDEntryType with
  | bid | offer | impliedBid | impliedOffer | bookReset | marketBestOffer | marketBestBid | null =>
    rfl

theorem Within.collect {s : Book46Loop Qp Qo} (h : s.Within K) (options : Options)
    (item : Book46.Entry) : (s.collect options item).Within K := by
  obtain ⟨-, hs, hc⟩ := s.collect_same options item
  refine ⟨by rw [hs]; exact h.security, by rw [hc]; exact h.calls, ?_⟩
  have hm : (s.collect options item).mdEntries = s.mdEntries := by
    unfold Book46Loop.collect
    split
    · exact emplaceBack_mdEntries s item _
    · rfl
  rw [hm]
  exact h.mdEntries

theorem Within.process {get : Lookup Qp Qo} {s : Book46Loop Qp Qo} (h : s.Within K)
    (options : Options) {item : Book46.Entry} (hk : K item.securityID) :
    (s.process options get item).Within K := by
  obtain ⟨he, hid⟩ : (s.enter get item.securityID).Within K ∧
      (s.enter get item.securityID).securityId = item.securityID := h.enter hk
  have hf : ((s.enter get item.securityID).flag item).Within K ∧
      ((s.enter get item.securityID).flag item).securityId = item.securityID := by
    unfold flag
    split
    · exact ⟨⟨he.security, he.calls, he.mdEntries⟩, hid⟩
    · exact ⟨he, hid⟩
  have hr := hf.1.report item
  have hrid := (report_same ((s.enter get item.securityID).flag item) item).1.trans hf.2
  exact (hr.remember options item (by rw [hrid]; exact hk)).collect options item

theorem run_within (options : Options) (get : Lookup Qp Qo) (items : List Book46.Entry)
    (hk : ∀ item ∈ items, K item.securityID) : (run options get items).Within K := by
  apply Within.dispatch
  have hinit : Within K ({} : Book46Loop Qp Qo) := by
    refine ⟨?_, .nil, ?_⟩
    · intro found hf
      cases hf
    · intro entry he
      cases he
  refine List.foldlRecOn items _ hinit ?_
  intro s hs item hi
  exact hs.process options (hk item hi)

theorem run_congr (options : Options) {get get' : Lookup Qp Qo} (h : Lookup.Agree K get get')
    (items : List Book46.Entry) (hk : ∀ item ∈ items, K item.securityID) :
    run options get items = run options get' items := by
  have hfold : items.foldl (process options get) {} = items.foldl (process options get') {} := by
    apply List.foldl_ext
    intro s item hi
    simp only [process, enter, h.find (hk item hi)]
  rw [run, run, hfold]

end Book46Loop

namespace Order46Loop

structure Within (K : Int → Prop) (s : Order46Loop Qp Qo) : Prop where
  security : ∀ found, s.security = some found → K found.securityId
  calls : CallsWithin K s.calls

theorem Within.dispatch {s : Order46Loop Qp Qo} (h : s.Within K) (b : Bool) :
    (s.dispatch b).Within K := by
  unfold Order46Loop.dispatch
  cases hs : s.security with
  | none => exact h
  | some found =>
    have hf := h.security found hs
    simp only
    split
    · exact h
    · refine ⟨?_, h.calls.append (.cons hf .nil)⟩
      intro other ho
      cases ho
      exact hf

theorem Within.enter {get : Lookup Qp Qo} {s : Order46Loop Qp Qo} (h : s.Within K) (b : Bool)
    {securityId : Int} (hk : K securityId) : (s.enter get b securityId).Within K := by
  unfold Order46Loop.enter
  split
  · exact ⟨fun found hf => find_within hk hf, (h.dispatch b).calls⟩
  · exact h

theorem Within.process {get : Lookup Qp Qo} {mdEntries : List MdEntry} {s : Order46Loop Qp Qo}
    (h : s.Within K) (hk : ∀ entry ∈ mdEntries, K entry.securityId) (b : Bool)
    (item : Book46.OrderEntry) : (s.process get mdEntries b item).Within K := by
  simp only [Order46Loop.process]
  split
  · exact h
  · split
    · exact h
    · next entry he =>
      have hin : (s.enter get b entry.securityId).Within K :=
        h.enter b (hk entry (List.mem_of_getElem? he))
      unfold collect
      split
      · exact ⟨hin.security, hin.calls⟩
      · exact hin

theorem run_within (get : Lookup Qp Qo) {mdEntries : List MdEntry}
    (hk : ∀ entry ∈ mdEntries, K entry.securityId) (b : Bool) (orders : List MBOUpdate)
    (items : List Book46.OrderEntry) : (run get mdEntries b orders items).Within K := by
  apply Within.dispatch
  have hinit : Within K ({ orders := orders } : Order46Loop Qp Qo) := by
    refine ⟨?_, .nil⟩
    intro found hf
    cases hf
  refine List.foldlRecOn items _ hinit ?_
  intro s hs item _
  exact hs.process hk b item

theorem run_congr {get get' : Lookup Qp Qo} (h : Lookup.Agree K get get')
    {mdEntries : List MdEntry} (hk : ∀ entry ∈ mdEntries, K entry.securityId) (b : Bool)
    (orders : List MBOUpdate) (items : List Book46.OrderEntry) :
    run get mdEntries b orders items = run get' mdEntries b orders items := by
  have hprocess : process get mdEntries b = process get' mdEntries b := by
    funext s item
    simp only [process]
    split
    · rfl
    · split
      · rfl
      · next entry he => simp only [enter, h.find (hk entry (List.mem_of_getElem? he))]
  rw [run, run, hprocess]

end Order46Loop

theorem OrderBook47Loop.emplaced_within (item : OrderBook47.Entry) (s : OrderBook47Loop Qp Qo)
    (h : ∀ securityId ∈ s.securityIds47, K securityId) :
    ∀ securityId ∈ (match s.security with
      | some found =>
        { s with orders47 := s.orders47 ++ emplaceBack47 item found.security s.securityId }
      | none => s).securityIds47, K securityId := by
  cases s.security with
  | none => exact h
  | some found => exact h

/-- The securities of a template 47 event stay those of its messages. -/
theorem OrderBook47Loop.run_within (get : Lookup Qp Qo) (items : List OrderBook47.Entry)
    (hk : ∀ item ∈ items, K item.securityID) (s : OrderBook47Loop Qp Qo)
    (h : ∀ securityId ∈ s.securityIds47, K securityId) :
    ∀ securityId ∈ (items.foldl (OrderBook47Loop.process get) s).securityIds47, K securityId := by
  refine List.foldlRecOn (motive := fun t : OrderBook47Loop Qp Qo =>
    ∀ securityId ∈ t.securityIds47, K securityId) items _ h ?_
  intro s hs item hi
  apply OrderBook47Loop.emplaced_within
  split
  · simp only
    split
    · intro securityId hm
      cases List.mem_append.1 hm with
      | inl hm => exact hs securityId hm
      | inr hm => rw [List.mem_singleton.1 hm]; exact hk item hi
    · exact hs
  · exact hs

theorem OrderBook47Loop.run_congr {get get' : Lookup Qp Qo} (h : Lookup.Agree K get get')
    (items : List OrderBook47.Entry) (hk : ∀ item ∈ items, K item.securityID)
    (s : OrderBook47Loop Qp Qo) :
    items.foldl (OrderBook47Loop.process get) s = items.foldl (OrderBook47Loop.process get') s := by
  apply List.foldl_ext
  intro t item hi
  simp only [OrderBook47Loop.process, h.find (hk item hi)]

theorem flush47_within (get : Lookup Qp Qo) (orders47 : List Order47) (ids : List Int)
    (orders : List MBOUpdate) (hk : ∀ securityId ∈ ids, K securityId) :
    CallsWithin K (flush47 get orders47 ids orders).2 := by
  induction ids generalizing orders with
  | nil => exact .nil
  | cons securityId ids ih =>
    have hrest := fun x hx => hk x (List.mem_cons_of_mem securityId hx)
    simp only [flush47]
    split
    · exact .cons (hk securityId (by simp)) (ih [] hrest)
    · exact ih orders hrest

theorem flush47_congr {get get' : Lookup Qp Qo} (h : Lookup.Agree K get get')
    (orders47 : List Order47) (ids : List Int) (hk : ∀ securityId ∈ ids, K securityId)
    (orders : List MBOUpdate) :
    flush47 get orders47 ids orders = flush47 get' orders47 ids orders := by
  induction ids generalizing orders with
  | nil => rfl
  | cons securityId ids ih =>
    have hrest := ih fun x hx => hk x (List.mem_cons_of_mem securityId hx)
    simp only [flush47, h securityId (hk securityId (by simp)), hrest]

theorem forSecurities_within {δ : Type} (get : Lookup Qp Qo)
    (content : Int → Security Qp Qo → Option (List δ)) (action : List δ → Action) (ids : List Int)
    (hk : ∀ securityId ∈ ids, K securityId) (calls : List Call)
    (h : forSecurities get content action ids = some calls) : CallsWithin K calls := by
  induction ids generalizing calls with
  | nil =>
    simp only [forSecurities, Option.some.injEq] at h
    subst h
    exact .nil
  | cons securityId ids ih =>
    have hrest := ih fun x hx => hk x (List.mem_cons_of_mem securityId hx)
    cases hg : get securityId with
    | none =>
      simp only [forSecurities, hg] at h
      exact hrest calls h
    | some security =>
      cases hl : forSecurities get content action ids with
      | none => simp only [forSecurities, hg, hl, reduceCtorEq] at h
      | some later =>
        simp only [forSecurities, hg, hl, Option.map_eq_some_iff] at h
        obtain ⟨items, -, rfl⟩ := h
        split
        · exact hrest later hl
        · exact .cons (hk securityId (by simp)) (hrest later hl)

theorem forSecurities_congr {δ : Type} {get get' : Lookup Qp Qo} (h : Lookup.Agree K get get')
    (content : Int → Security Qp Qo → Option (List δ)) (action : List δ → Action) (ids : List Int)
    (hk : ∀ securityId ∈ ids, K securityId) :
    forSecurities get content action ids = forSecurities get' content action ids := by
  induction ids with
  | nil => rfl
  | cons securityId ids ih =>
    have hrest := ih fun x hx => hk x (List.mem_cons_of_mem securityId hx)
    simp only [forSecurities, h securityId (hk securityId (by simp)), hrest]

namespace PendingSummary

/-- The securities of a pending summary are in `K`. -/
def Within (K : Int → Prop) (p : PendingSummary) : Prop :=
  ∀ securityId ∈ p.securityIds, K securityId

theorem Within.empty : Within K {} :=
  fun _ hm => by cases hm

theorem Within.addEntry {p : PendingSummary} (h : p.Within K) {item : TradeSummary.Entry}
    (hk : K item.securityID) : (p.addEntry item).Within K := by
  intro securityId hm
  simp only [PendingSummary.addEntry, insertSecurityId] at hm
  split at hm
  · exact h securityId hm
  · cases List.mem_append.1 hm with
    | inl hm => exact h securityId hm
    | inr hm => rw [List.mem_singleton.1 hm]; exact hk

theorem Within.assemble {p : PendingSummary} {value : TradeSummary}
    (h : value.transactTime = p.transactTime → p.Within K)
    (hk : ∀ item ∈ value.noMDEntries, K item.securityID) : (p.assemble value).Within K := by
  have hstart : Within K
      (if value.transactTime = p.transactTime then p else { transactTime := value.transactTime }) := by
    split
    · next he => exact h he
    · intro securityId hm
      cases hm
  have hentries : Within K (value.noMDEntries.foldl PendingSummary.addEntry
      (if value.transactTime = p.transactTime then p
        else { transactTime := value.transactTime })) :=
    List.foldlRecOn value.noMDEntries _ hstart fun q hq item hi => hq.addEntry (hk item hi)
  exact List.foldlRecOn value.noOrderIDEntries _ hentries fun q hq item _ => hq

theorem calls_within (get : Lookup Qp Qo) {p : PendingSummary} (hp : p.Within K)
    (calls : List Call) (h : p.calls get = some calls) : CallsWithin K calls := by
  simp only [PendingSummary.calls] at h
  split at h
  · next mbo trades hm ht =>
    simp only [Option.some.injEq] at h
    subst h
    exact (forSecurities_within get _ _ _ hp mbo hm).append
      (forSecurities_within get _ _ _ hp trades ht)
  · cases h

theorem calls_congr {get get' : Lookup Qp Qo} (h : Lookup.Agree K get get') {p : PendingSummary}
    (hp : p.Within K) : p.calls get = p.calls get' := by
  simp only [PendingSummary.calls, forSecurities_congr h _ _ _ hp]

end PendingSummary

theorem reportCalls_within (get : Lookup Qp Qo) (items : List TradeSummary.Entry)
    (hk : ∀ item ∈ items, K item.securityID) : CallsWithin K (reportCalls get items) := by
  intro c hc
  obtain ⟨item, hi, hm⟩ := List.mem_flatMap.1 hc
  split at hm
  · rw [List.mem_singleton.1 hm]
    exact hk item hi
  · cases hm

theorem reportCalls_congr {get get' : Lookup Qp Qo} (h : Lookup.Agree K get get')
    (items : List TradeSummary.Entry) (hk : ∀ item ∈ items, K item.securityID) :
    reportCalls get items = reportCalls get' items := by
  refine List.flatMap_congr ?_
  intro item hi
  rw [h item.securityID (hk item hi)]

/-- What the handler of a message keeps and calls is within `K`. -/
structure Reaction.Within (K : Int → Prop) (r : Reaction) : Prop where
  calls : CallsWithin K r.calls
  cache : ∀ securityId ∈ r.cache.securityIds47, K securityId

theorem dispatchTradeSummary_within (get : Lookup Qp Qo) {cache : Cache} {pending : PendingSummary}
    {value : TradeSummary} (hc : ∀ securityId ∈ cache.securityIds47, K securityId)
    (hp : value.transactTime = pending.transactTime → pending.Within K)
    (hk : ∀ item ∈ value.noMDEntries, K item.securityID) :
    (dispatchTradeSummary get cache pending value).Within K ∧
      (dispatchTradeSummary get cache pending value).pending.Within K := by
  have hreports := reportCalls_within get value.noMDEntries hk
  have hassembled := PendingSummary.Within.assemble hp hk
  simp only [dispatchTradeSummary]
  split
  · exact ⟨⟨hreports, hc⟩, hassembled⟩
  · split
    · next calls hcalls =>
      exact ⟨⟨hreports.append (PendingSummary.calls_within get hassembled calls hcalls), hc⟩, .empty⟩
    · exact ⟨⟨hreports, hc⟩, .empty⟩

theorem dispatchTradeSummary_congr {get get' : Lookup Qp Qo} (h : Lookup.Agree K get get')
    (cache : Cache) {pending pending' : PendingSummary} {value : TradeSummary}
    (he : pending.assemble value = pending'.assemble value)
    (hp : value.transactTime = pending.transactTime → pending.Within K)
    (hk : ∀ item ∈ value.noMDEntries, K item.securityID) :
    dispatchTradeSummary get cache pending value =
      dispatchTradeSummary get' cache pending' value := by
  simp only [dispatchTradeSummary, ← he, reportCalls_congr h value.noMDEntries hk,
    PendingSummary.calls_congr h (PendingSummary.Within.assemble hp hk)]

theorem reportOnly_within (get : Lookup Qp Qo) {cache : Cache} (pending : PendingSummary)
    (hc : ∀ securityId ∈ cache.securityIds47, K securityId) (items : List ReportEntry)
    (hk : ∀ item ∈ items, K item.securityID) : (reportOnly get cache pending items).Within K := by
  refine ⟨SecurityIterator.run_within (CallsWithin K) ?_ ?_ items hk [] .nil, hc⟩
  · intro _ _ calls _ h
    exact h
  · intro _ found item calls hf h
    exact h.append (.cons hf .nil)

theorem dispatchStatistics_within {τ : Type} (get : Lookup Qp Qo) {cache : Cache}
    (pending : PendingSummary) (hc : ∀ securityId ∈ cache.securityIds47, K securityId)
    (callback : StatisticsEntry τ → Security Qp Qo → Statistics) (value : StatisticsMessage τ)
    (hk : ∀ item ∈ value.noMDEntries, K item.securityID) :
    (dispatchStatistics get cache pending callback value).Within K := by
  refine ⟨SecurityIterator.run_within (fun s : List Statistics × List Call => CallsWithin K s.2) ?_ ?_
    value.noMDEntries hk ([], []) .nil, hc⟩
  · intro _ found s hf h
    split
    · exact h
    · exact h.append (.cons hf .nil)
  · intro _ found item s hf h
    refine h.append (.cons hf ?_)
    split
    · exact .cons hf (.cons hf .nil)
    · exact .nil

theorem book46_within (options : Options) (get : Lookup Qp Qo) {cache : Cache}
    (pending : PendingSummary) (hc : ∀ securityId ∈ cache.securityIds47, K securityId)
    (value : Book46) (hk : ∀ item ∈ value.noMDEntries, K item.securityID) :
    (book46 options get cache pending value).Within K := by
  have hmbp := Book46Loop.run_within options get value.noMDEntries hk
  simp only [book46]
  split
  · exact ⟨hmbp.calls.append (Order46Loop.run_within get hmbp.mdEntries _ _ _).calls, hc⟩
  · exact ⟨hmbp.calls, hc⟩

theorem book46_congr (options : Options) {get get' : Lookup Qp Qo} (h : Lookup.Agree K get get')
    (cache : Cache) (pending : PendingSummary) (value : Book46)
    (hk : ∀ item ∈ value.noMDEntries, K item.securityID) :
    book46 options get cache pending value = book46 options get' cache pending value := by
  have hmbp := Book46Loop.run_within options get' value.noMDEntries hk
  simp only [book46, Book46Loop.run_congr options h value.noMDEntries hk,
    Order46Loop.run_congr h hmbp.mdEntries]

theorem orderBook47_within (options : Options) (get : Lookup Qp Qo) {cache : Cache}
    (pending : PendingSummary) (hc : ∀ securityId ∈ cache.securityIds47, K securityId)
    (value : OrderBook47) (hk : ∀ item ∈ value.noMDEntries, K item.securityID) :
    (orderBook47 options get cache pending value).Within K := by
  have hids := OrderBook47Loop.run_within get value.noMDEntries hk
    { orders47 := cache.orders47, securityIds47 := cache.securityIds47 } hc
  simp only [orderBook47]
  split
  · split
    · exact ⟨.nil, hids⟩
    · refine ⟨flush47_within get _ _ _ hids, ?_⟩
      intro securityId hm
      cases hm
  · exact ⟨.nil, hc⟩

theorem orderBook47_congr (options : Options) {get get' : Lookup Qp Qo}
    (h : Lookup.Agree K get get') {cache : Cache} (pending : PendingSummary)
    (hc : ∀ securityId ∈ cache.securityIds47, K securityId) (value : OrderBook47)
    (hk : ∀ item ∈ value.noMDEntries, K item.securityID) :
    orderBook47 options get cache pending value = orderBook47 options get' cache pending value := by
  have hids := OrderBook47Loop.run_within get' value.noMDEntries hk
    { orders47 := cache.orders47, securityIds47 := cache.securityIds47 } hc
  simp only [orderBook47, OrderBook47Loop.run_congr h value.noMDEntries hk,
    flush47_congr h _ _ hids]

theorem reportsOf_within {message : Message}
    (hk : ∀ securityId ∈ securitiesOf message, K securityId) : ∀ r ∈ reportsOf message, K r.1 := by
  intro r hr
  cases message with
  | instrumentDefinition | orderBook47 => cases hr
  | _ => exact hk r.1 (List.mem_map_of_mem hr)

/-- The trade summary that a message carries. -/
def tradeSummaryOf : Message → Option TradeSummary
  | .tradeSummary48 value | .tradeSummaryLongQty65 value => some value
  | _ => none

theorem react_tradeSummary (options : Options) (sd : SecurityDefinitions Qp Qo) (cache : Cache)
    (pending : PendingSummary) {message : Message} {value : TradeSummary}
    (h : tradeSummaryOf message = some value) :
    react options sd cache pending message =
      dispatchTradeSummary sd.getSecurity cache pending value := by
  cases message with
  | tradeSummary48 | tradeSummaryLongQty65 =>
    cases h
    rfl
  | _ => cases h

theorem tradeSummary_securities {message : Message} {value : TradeSummary}
    (h : tradeSummaryOf message = some value) (hk : ∀ securityId ∈ securitiesOf message, K securityId) :
    ∀ item ∈ value.noMDEntries, K item.securityID := by
  have hreports := reportsOf_within hk
  intro item hi
  cases message with
  | tradeSummary48 | tradeSummaryLongQty65 =>
    cases h
    exact hreports _ (List.mem_map_of_mem hi)
  | _ => cases h

/-- The other handlers do not look at the pending summary. -/
theorem react_pending (options : Options) (sd : SecurityDefinitions Qp Qo) (cache : Cache)
    (pending : PendingSummary) {message : Message} (h : tradeSummaryOf message = none) :
    react options sd cache pending message =
      { react options sd cache {} message with pending := pending } := by
  cases message with
  | tradeSummary48 | tradeSummaryLongQty65 => cases h
  | book46 value =>
    simp only [react, book46]
    split
    · rfl
    · rfl
  | orderBook47 value =>
    simp only [react, orderBook47]
    split
    · split
      · rfl
      · rfl
    · rfl
  | _ => rfl

/-- A market status goes to all securities of a group; every other message concerns the
securities that it names. -/
def isStatus : Message → Bool
  | .securityStatus30 _ => true
  | _ => false

theorem react_within (options : Options) (sd : SecurityDefinitions Qp Qo) {cache : Cache}
    (pending : PendingSummary) {message : Message} (hs : isStatus message = false)
    (ht : tradeSummaryOf message = none)
    (hc : ∀ securityId ∈ cache.securityIds47, K securityId)
    (hk : ∀ securityId ∈ securitiesOf message, K securityId) :
    (react options sd cache pending message).Within K := by
  have hreports := reportsOf_within hk
  cases message with
  | adminHeartbeat12 | channelReset4 | quoteRequest39 => exact ⟨.nil, hc⟩
  | snapshotFullRefresh52 | snapshotFullRefreshLongQty69 | snapshotFullRefreshOrderBook53 =>
    exact ⟨.nil, hc⟩
  | securityStatus30 value => cases hs
  | tradeSummary48 | tradeSummaryLongQty65 => cases ht
  | instrumentDefinition value =>
    refine ⟨?_, hc⟩
    intro c hm
    rw [instrumentDefinition_calls sd cache pending value c hm]
    exact hk _ (by simp [securitiesOf])
  | book46 value =>
    apply book46_within options sd.getSecurity pending hc
    intro item hi
    exact hreports _ (List.mem_map_of_mem hi)
  | bookLongQty64 items | volumeLongQty66 items | limitsBanding50 items =>
    apply reportOnly_within sd.getSecurity pending hc
    intro item hi
    exact hreports _ (List.mem_map_of_mem hi)
  | orderBook47 value =>
    apply orderBook47_within options sd.getSecurity pending hc
    intro item hi
    exact hk _ (List.mem_map_of_mem hi)
  | dailyStatistics49 value | sessionStatistics51 value | sessionStatisticsLongQty67 value
  | volume37 value =>
    simp only [react]
    refine dispatchStatistics_within sd.getSecurity pending hc _ value ?_
    intro item hi
    exact hreports _ (List.mem_map_of_mem hi)

/-- Two tables with the same securities in `K`. -/
def SecurityDefinitions.Agree (K : Int → Prop) (sd sd' : SecurityDefinitions Qp Qo) : Prop :=
  Lookup.Agree K sd.securities sd'.securities

theorem SecurityDefinitions.Agree.getSecurity {sd sd' : SecurityDefinitions Qp Qo}
    (h : SecurityDefinitions.Agree K sd sd') : Lookup.Agree K sd.getSecurity sd'.getSecurity := by
  intro securityId hk
  simp only [SecurityDefinitions.getSecurity, h securityId hk]

theorem react_congr (options : Options) {sd sd' : SecurityDefinitions Qp Qo}
    (h : SecurityDefinitions.Agree K sd sd') {cache : Cache} (pending : PendingSummary)
    {message : Message} (hs : isStatus message = false) (ht : tradeSummaryOf message = none)
    (hc : ∀ securityId ∈ cache.securityIds47, K securityId)
    (hk : ∀ securityId ∈ securitiesOf message, K securityId) :
    react options sd cache pending message = react options sd' cache pending message := by
  have hget := h.getSecurity
  have hreports := reportsOf_within hk
  cases message with
  | adminHeartbeat12 | channelReset4 | quoteRequest39 => rfl
  | snapshotFullRefresh52 | snapshotFullRefreshLongQty69 | snapshotFullRefreshOrderBook53 => rfl
  | securityStatus30 value => cases hs
  | tradeSummary48 | tradeSummaryLongQty65 => cases ht
  | instrumentDefinition value =>
    have hid := h value.securityID (hk _ (by simp [securitiesOf]))
    simp only [react, instrumentDefinition, SecurityDefinitions.hasSecurity,
      SecurityDefinitions.getSecurityInclDiscard, hid]
    rfl
  | book46 value =>
    apply book46_congr options hget
    intro item hi
    exact hreports _ (List.mem_map_of_mem hi)
  | bookLongQty64 items | volumeLongQty66 items | limitsBanding50 items =>
    have hitems : ∀ item ∈ items, K item.securityID := by
      intro item hi
      exact hreports _ (List.mem_map_of_mem hi)
    simp only [react, reportOnly, SecurityIterator.run_congr hget items hitems]
  | orderBook47 value =>
    apply orderBook47_congr options hget pending hc
    intro item hi
    exact hk _ (List.mem_map_of_mem hi)
  | dailyStatistics49 value | sessionStatistics51 value | sessionStatisticsLongQty67 value
  | volume37 value =>
    have hitems : ∀ item ∈ value.noMDEntries, K item.securityID := by
      intro item hi
      exact hreports _ (List.mem_map_of_mem hi)
    simp only [react, dispatchStatistics, SecurityIterator.run_congr hget value.noMDEntries hitems]

end RoqCme.MarketData
