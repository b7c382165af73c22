import RoqCme.MarketData.PriceRuns
import RoqCme.MarketData.ResetFragments

/-! Where the prices of an update come from. Every emitter multiplies the price of an entry by the
display factor of its security; between messages prices are kept raw (trade summaries) or scaled
(template 47). -/
namespace RoqCme.MarketData
open RoqCme.Mdp RoqCme.Tools
variable {Qp Qo : Type}

/-- The prices of the message as the exchange sent them, each with its security. -/
def rawPrices : Message → List (Int × Double)
  | .book46 value => value.noMDEntries.map fun item => (item.securityID, priceNull9 item.mDEntryPx)
  | .orderBook47 value =>
    value.noMDEntries.map fun item => (item.securityID, priceNull9 item.mDEntryPx)
  | .tradeSummary48 value | .tradeSummaryLongQty65 value =>
    value.noMDEntries.map fun item => (item.securityID, price9 item.mDEntryPx)
  | .dailyStatistics49 value =>
    value.noMDEntries.map fun item => (item.securityID, price9 item.mDEntryPx)
  | .sessionStatistics51 value | .sessionStatisticsLongQty67 value =>
    value.noMDEntries.map fun item => (item.securityID, price9 item.mDEntryPx)
  | .snapshotFullRefresh52 value | .snapshotFullRefreshLongQty69 value =>
    value.noMDEntries.map fun item => (value.securityID, priceNull9 item.mDEntryPx)
  | .snapshotFullRefreshOrderBook53 value =>
    value.noMDEntries.map fun item => (value.securityID, price9 item.mDEntryPx)
  | _ => []

def StatisticsType.isPrice : StatisticsType → Bool
  | .openInterest | .tradeVolume => false
  | _ => true

/-- A side that is not quoted has no price. -/
def Layer.prices (layer : Layer) : List Double :=
  [layer.bidPrice, layer.askPrice].filter (· ≠ none)

def levelPrices (levels : PriceLevels) : List Double :=
  (levels.1 ++ levels.2).map MBPUpdate.price

def orderPrices (orders : List MBOUpdate) : List Double :=
  orders.map MBOUpdate.price

def statisticsPrices (items : List Statistics) : List Double :=
  (items.filter fun item => StatisticsType.isPrice item.type).map Statistics.value

/-- The prices of a call. -/
def Action.prices : Action → List Double
  | .topOfBook layer => Layer.prices layer
  | .dispatchMarketByPrice bids asks _ => levelPrices (bids, asks)
  | .dispatchMarketByOrder orders _ | .dispatchOrderBook47 orders => orderPrices orders
  | .tradeSummary trades => trades.map Trade.price
  | .statistics items => statisticsPrices items
  | .checkReportSequence _ | .marketStatus _ | .referenceData _ => []

/-- A price of this security among the raw ones, multiplied by the display factor once. -/
def Lookup.Scaled (get : Lookup Qp Qo) (raw : List (Int × Double)) (securityId : Int)
    (price : Double) : Prop :=
  ∃ s x, get securityId = some s ∧ (securityId, x) ∈ raw ∧ price = x.mul s.displayFactor

/-- Every price of every call is scaled. -/
def CallsScaled (get : Lookup Qp Qo) (raw : List (Int × Double)) (calls : List Call) : Prop :=
  ∀ c ∈ calls, ∀ x ∈ c.action.prices, get.Scaled raw c.securityId x

variable {get : Lookup Qp Qo} {raw : List (Int × Double)}

theorem CallsScaled.append {xs ys : List Call} (hx : CallsScaled get raw xs)
    (hy : CallsScaled get raw ys) : CallsScaled get raw (xs ++ ys) := by
  intro c hc
  cases List.mem_append.1 hc with
  | inl hc => exact hx c hc
  | inr hc => exact hy c hc

/-- Calls that carry no price. -/
theorem callsScaled_of_prices {calls : List Call} (h : ∀ c ∈ calls, c.action.prices = []) :
    CallsScaled get raw calls := by
  intro c hc x hx
  rw [h c hc] at hx
  cases hx

namespace Book46Loop

/-- The prices that the loop keeps for the next dispatch. -/
def keptPrices (s : Book46Loop Qp Qo) : List Double :=
  Layer.prices s.layer ++ levelPrices (s.bids, s.asks) ++ orderPrices s.orders

/-- What is kept belongs to the current security. -/
structure Scaled (get : Lookup Qp Qo) (raw : List (Int × Double)) (s : Book46Loop Qp Qo) : Prop where
  security : ∀ found, s.security = some found → get.find s.securityId = some found
  kept : ∀ x ∈ s.keptPrices, s.security.isSome ∧ get.Scaled raw s.securityId x
  calls : CallsScaled get raw s.calls
  mdEntries : ∀ entry ∈ s.mdEntries, (entry.securityId, entry.price) ∈ raw

theorem scaled_call {s : Book46Loop Qp Qo} (h : CallsScaled get raw s.calls) (found : Found Qp Qo)
    (action : Action) (ha : ∀ x ∈ action.prices, get.Scaled raw found.securityId x) :
    CallsScaled get raw (s.call found action).calls := by
  refine h.append ?_
  intro c hc
  rw [List.mem_singleton.1 hc]
  exact ha

theorem scaled_dispatchTopOfBook {s : Book46Loop Qp Qo} (h : CallsScaled get raw s.calls)
    (found : Found Qp Qo) (ha : ∀ x ∈ Layer.prices s.layer, get.Scaled raw found.securityId x) :
    let t := s.dispatchTopOfBook found
    CallsScaled get raw t.calls ∧ t.layer = {} ∧ t.bids = s.bids ∧ t.asks = s.asks ∧
      t.orders = s.orders ∧ t.mdEntries = s.mdEntries := by
  intro t
  simp only [t, dispatchTopOfBook]
  split
  · exact ⟨scaled_call h found (.topOfBook s.layer) ha, rfl, rfl, rfl, rfl, rfl⟩
  · next hl => exact ⟨h, not_not.1 hl, rfl, rfl, rfl, rfl⟩

theorem scaled_dispatchPrices {s : Book46Loop Qp Qo} (h : CallsScaled get raw s.calls)
    (found : Found Qp Qo)
    (ha : ∀ x ∈ levelPrices (s.bids, s.asks), get.Scaled raw found.securityId x) :
    let t := s.dispatchPrices found
    CallsScaled get raw t.calls ∧ t.layer = s.layer ∧ t.bids = [] ∧ t.asks = [] ∧
      t.orders = s.orders ∧ t.mdEntries = s.mdEntries := by
  intro t
  simp only [t, dispatchPrices]
  split
  · exact ⟨scaled_call h found (.dispatchMarketByPrice s.bids s.asks s.isSnapshot) ha, rfl, rfl, rfl,
      rfl, rfl⟩
  · next hl =>
    simp only [not_or, not_not] at hl
    exact ⟨h, rfl, hl.1, hl.2, rfl, rfl⟩

theorem scaled_dispatchOrders {s : Book46Loop Qp Qo} (h : CallsScaled get raw s.calls)
    (found : Found Qp Qo) (ha : ∀ x ∈ orderPrices s.orders, get.Scaled raw found.securityId x) :
    let t := s.dispatchOrders found
    CallsScaled get raw t.calls ∧ t.layer = s.layer ∧ t.bids = s.bids ∧ t.asks = s.asks ∧
      t.orders = [] ∧ t.mdEntries = s.mdEntries := by
  intro t
  simp only [t, dispatchOrders]
  split
  · exact ⟨scaled_call h found (.dispatchMarketByOrder s.orders false) ha, rfl, rfl, rfl, rfl, rfl⟩
  · next hl => exact ⟨h, rfl, rfl, rfl, not_not.1 hl, rfl⟩

theorem mem_keptPrices {s : Book46Loop Qp Qo} {x : Double} : x ∈ s.keptPrices ↔
    x ∈ Layer.prices s.layer ∨ x ∈ levelPrices (s.bids, s.asks) ∨ x ∈ orderPrices s.orders := by
  rw [keptPrices, List.mem_append, List.mem_append, or_assoc]

/-- A dispatch hands on what is kept. -/
theorem Scaled.dispatch {s : Book46Loop Qp Qo} (h : s.Scaled get raw) :
    CallsScaled get raw s.dispatch.calls ∧ s.dispatch.keptPrices = [] ∧
      s.dispatch.mdEntries = s.mdEntries := by
  cases hs : s.security with
  | none =>
    have hnil : s.keptPrices = [] := by
      rw [List.eq_nil_iff_forall_not_mem]
      intro x hx
      have hsome := (h.kept x hx).1
      rw [hs] at hsome
      cases hsome
    rw [Book46Loop.dispatch, hs]
    exact ⟨h.calls, hnil, rfl⟩
  | some found =>
    have hid : found.securityId = s.securityId := (find_self (h.security found hs)).1
    have hkept : ∀ x ∈ s.keptPrices, get.Scaled raw found.securityId x := by
      intro x hx
      rw [hid]
      exact (h.kept x hx).2
    have hdispatch : s.dispatch =
        ((s.dispatchTopOfBook found).dispatchPrices found).dispatchOrders found := by
      rw [Book46Loop.dispatch, hs]
    obtain ⟨hc1, hl1, hb1, ha1, ho1, hm1⟩ := scaled_dispatchTopOfBook h.calls found
      fun x hx => hkept x (mem_keptPrices.2 (Or.inl hx))
    obtain ⟨hc2, hl2, hb2, ha2, ho2, hm2⟩ := scaled_dispatchPrices hc1 found (by
      rw [hb1, ha1]
      exact fun x hx => hkept x (mem_keptPrices.2 (Or.inr (Or.inl hx))))
    obtain ⟨hc3, hl3, hb3, ha3, ho3, hm3⟩ := scaled_dispatchOrders hc2 found (by
      rw [ho2, ho1]
      exact fun x hx => hkept x (mem_keptPrices.2 (Or.inr (Or.inr hx))))
    rw [hdispatch]
    refine ⟨hc3, ?_, hm3.trans (hm2.trans hm1)⟩
    rw [keptPrices, hl3, hl2, hl1, hb3, hb2, ha3, ha2, ho3]
    rfl

/-- Nothing is kept when the next security is looked up. -/
theorem Scaled.enter {s : Book46Loop Qp Qo} (h : s.Scaled get raw) (securityId : Int) :
    (s.enter get securityId).Scaled get raw ∧ (s.enter get securityId).securityId = securityId := by
  rw [Book46Loop.enter]
  split
  · obtain ⟨hc, hk, hm⟩ := h.dispatch
    refine ⟨⟨fun found hf => hf, ?_, hc, ?_⟩, rfl⟩
    · intro x hx
      rw [keptPrices] at hk
      rw [keptPrices, hk] at hx
      cases hx
    · intro entry he
      rw [hm] at he
      exact h.mdEntries entry he
  · next he => exact ⟨h, (not_not.1 he).symm⟩

theorem Scaled.flag {s : Book46Loop Qp Qo} (h : s.Scaled get raw) (item : Book46.Entry) :
    (s.flag item).Scaled get raw := by
  rw [Book46Loop.flag]
  split
  · exact ⟨h.security, h.kept, h.calls, h.mdEntries⟩
  · exact h

theorem Scaled.report {s : Book46Loop Qp Qo} (h : s.Scaled get raw) (item : Book46.Entry) :
    (s.report item).Scaled get raw := by
  rw [Book46Loop.report]
  split
  · next found hs =>
    refine ⟨h.security, h.kept, scaled_call h.calls found _ ?_, h.mdEntries⟩
    intro x hx
    cases hx
  · exact h

theorem Scaled.remember {s : Book46Loop Qp Qo} (h : s.Scaled get raw) (options : Options)
    (item : Book46.Entry) (hraw : (s.securityId, priceNull9 item.mDEntryPx) ∈ raw) :
    (s.remember options item).Scaled get raw := by
  simp only [Book46Loop.remember]
  split
  · refine ⟨h.security, h.kept, h.calls, ?_⟩
    intro entry he
    cases List.mem_append.1 he with
    | inl he => exact h.mdEntries entry he
    | inr he =>
      rw [List.mem_singleton.1 he]
      exact hraw
  · exact h

/-- The prices that an entry adds are its own price, scaled. -/
theorem mem_keptPrices_collect {s : Book46Loop Qp Qo} (options : Options) (item : Book46.Entry)
    {found : Found Qp Qo} (hs : s.security = some found) {x : Double}
    (hx : x ∈ (s.collect options item).keptPrices) : x ∈ s.keptPrices ∨
      x = (priceNull9 item.mDEntryPx).mul found.security.displayFactor := by
  obtain ⟨-, hbids, hasks, hlayer⟩ := emplaceBack_spec s item found.security
  have horders : (s.emplaceBack item found.security).orders = s.orders := by
    rw [emplaceBack]
    cases item.mDEntryType with
    | bid | offer | impliedBid | impliedOffer | bookReset | marketBestOffer | marketBestBid
    | null => rfl
  have hcollect : s.collect options item = { s.emplaceBack item found.security with
      orders := (s.emplaceBack item found.security).orders ++
        clearPriceLevel options item found.security } := by
    simp only [collect, hs]
  rw [hcollect, mem_keptPrices] at hx
  rw [mem_keptPrices]
  obtain hx | hx | hx := hx
  · simp only [hlayer, Layer.prices, List.mem_filter, List.mem_cons, List.not_mem_nil,
      or_false] at hx
    obtain ⟨hx | hx, hsome⟩ := hx
    · split at hx
      · exact Or.inr hx
      · exact Or.inl (Or.inl (List.mem_filter.2 ⟨by simp [hx], hsome⟩))
    · split at hx
      · exact Or.inr hx
      · exact Or.inl (Or.inl (List.mem_filter.2 ⟨by simp [hx], hsome⟩))
  · simp only [hbids, hasks, levelPrices, List.map_append, List.mem_append] at hx
    obtain (hx | hx) | hx | hx := hx
    · exact Or.inl (Or.inr (Or.inl (by simp [levelPrices, hx])))
    · split at hx
      · exact Or.inr (List.mem_singleton.1 hx)
      · cases hx
    · exact Or.inl (Or.inr (Or.inl (by simp [levelPrices, hx])))
    · split at hx
      · exact Or.inr (List.mem_singleton.1 hx)
      · cases hx
  · simp only [horders, orderPrices, List.map_append, List.mem_append] at hx
    cases hx with
    | inl hx => exact Or.inl (Or.inr (Or.inr hx))
    | inr hx =>
      simp only [clearPriceLevel] at hx
      split at hx
      · exact Or.inr (List.mem_singleton.1 hx)
      · cases hx

theorem Scaled.collect {s : Book46Loop Qp Qo} (h : s.Scaled get raw) (options : Options)
    (item : Book46.Entry) (hraw : (s.securityId, priceNull9 item.mDEntryPx) ∈ raw) :
    (s.collect options item).Scaled get raw := by
  cases hs : s.security with
  | none =>
    rw [Book46Loop.collect, hs]
    exact h
  | some found =>
    obtain ⟨hid, hsec, hcalls⟩ := s.collect_same options item
    have hm : (s.collect options item).mdEntries = s.mdEntries := by
      simp only [Book46Loop.collect, hs]
      exact emplaceBack_mdEntries s item found.security
    obtain ⟨security, hget, hfound⟩ := Option.map_eq_some_iff.1 (h.security found hs)
    refine ⟨by rw [hid, hsec]; exact h.security, ?_, by rw [hcalls]; exact h.calls, by
      rw [hm]; exact h.mdEntries⟩
    intro x hx
    rw [hid, hsec]
    cases mem_keptPrices_collect options item hs hx with
    | inl hx => exact h.kept x hx
    | inr hx =>
      refine ⟨by rw [hs]; rfl, security, _, hget, hraw, ?_⟩
      rw [hx, ← hfound]

theorem Scaled.process {s : Book46Loop Qp Qo} (h : s.Scaled get raw) (options : Options)
    {item : Book46.Entry} (hraw : (item.securityID, priceNull9 item.mDEntryPx) ∈ raw) :
    (s.process options get item).Scaled get raw := by
  obtain ⟨he, hid⟩ := h.enter item.securityID
  have hr := (he.flag item).report item
  have hrid : (((s.enter get item.securityID).flag item).report item).securityId =
      item.securityID := by
    rw [(report_same _ item).1, (flag_same _ item).1, hid]
  rw [← hrid] at hraw
  refine (hr.remember options item hraw).collect options item ?_
  rw [(remember_same options _ item).1]
  exact hraw

theorem run_scaled (options : Options) (get : Lookup Qp Qo) (items : List Book46.Entry)
    (hraw : ∀ item ∈ items, (item.securityID, priceNull9 item.mDEntryPx) ∈ raw) :
    CallsScaled get raw (run options get items).calls ∧
      ∀ entry ∈ (run options get items).mdEntries, (entry.securityId, entry.price) ∈ raw := by
  have hinit : Scaled get raw ({} : Book46Loop Qp Qo) := by
    refine ⟨?_, ?_, ?_, ?_⟩
    · intro found hf
      cases hf
    · intro x hx
      cases hx
    · intro c hc
      cases hc
    · intro entry he
      cases he
  have hfold : (items.foldl (process options get) {}).Scaled get raw := by
    refine List.foldlRecOn items _ hinit ?_
    intro s hs item hi
    exact hs.process options (hraw item hi)
  obtain ⟨hc, -, hm⟩ := hfold.dispatch
  refine ⟨hc, ?_⟩
  rw [run, hm]
  exact hfold.mdEntries

end Book46Loop

namespace Order46Loop

structure Scaled (get : Lookup Qp Qo) (raw : List (Int × Double)) (s : Order46Loop Qp Qo) :
    Prop where
  security : ∀ found, s.security = some found → get.find s.securityId = some found
  kept : ∀ x ∈ orderPrices s.orders, s.security.isSome ∧ get.Scaled raw s.securityId x
  calls : CallsScaled get raw s.calls

theorem Scaled.dispatch {s : Order46Loop Qp Qo} (h : s.Scaled get raw) (b : Bool) :
    CallsScaled get raw (s.dispatch b).calls ∧ (s.dispatch b).orders = [] := by
  cases hs : s.security with
  | none =>
    have hnil : s.orders = [] := by
      rw [List.eq_nil_iff_forall_not_mem]
      intro u hu
      have hsome := (h.kept u.price (List.mem_map_of_mem hu)).1
      rw [hs] at hsome
      cases hsome
    rw [Order46Loop.dispatch, hs]
    exact ⟨h.calls, hnil⟩
  | some found =>
    have hid : found.securityId = s.securityId := (find_self (h.security found hs)).1
    simp only [Order46Loop.dispatch, hs]
    split
    · next hn => exact ⟨h.calls, hn⟩
    · refine ⟨h.calls.append ?_, rfl⟩
      intro c hc x hx
      rw [List.mem_singleton.1 hc] at hx ⊢
      rw [hid]
      exact (h.kept x hx).2

theorem Scaled.enter {s : Order46Loop Qp Qo} (h : s.Scaled get raw) (b : Bool) (securityId : Int) :
    (s.enter get b securityId).Scaled get raw ∧
      (s.enter get b securityId).securityId = securityId := by
  rw [Order46Loop.enter]
  split
  · obtain ⟨hc, ho⟩ := h.dispatch b
    refine ⟨⟨fun found hf => hf, ?_, hc⟩, rfl⟩
    intro x hx
    rw [ho] at hx
    cases hx
  · next he => exact ⟨h, (not_not.1 he).symm⟩

/-- An order takes the price of the price entry that it refers to. -/
theorem Scaled.process {mdEntries : List MdEntry} {s : Order46Loop Qp Qo} (h : s.Scaled get raw)
    (hraw : ∀ entry ∈ mdEntries, (entry.securityId, entry.price) ∈ raw) (b : Bool)
    (item : Book46.OrderEntry) : (s.process get mdEntries b item).Scaled get raw := by
  simp only [Order46Loop.process]
  split
  · exact h
  · split
    · exact h
    · next entry hentry =>
      obtain ⟨he, hid⟩ := h.enter b entry.securityId
      rw [Order46Loop.collect]
      split
      · next found hs =>
        obtain ⟨security, hget, hfound⟩ := Option.map_eq_some_iff.1 (he.security found hs)
        refine ⟨fun found hf => he.security found hf, ?_, he.calls⟩
        intro x hx
        simp only [orderPrices, List.map_append, List.mem_append, List.map_cons, List.map_nil,
          List.mem_singleton] at hx
        cases hx with
        | inl hx => exact he.kept x hx
        | inr hx =>
          have hmem := hraw entry (List.mem_of_getElem? hentry)
          refine ⟨by simp [hs], security, entry.price, hget, by rw [hid]; exact hmem, ?_⟩
          rw [hx, ← hfound]
          rfl
      · exact he

theorem run_scaled {mdEntries : List MdEntry}
    (hraw : ∀ entry ∈ mdEntries, (entry.securityId, entry.price) ∈ raw) (b : Bool)
    (items : List Book46.OrderEntry) : CallsScaled get raw (run get mdEntries b [] items).calls := by
  have hinit : Scaled get raw ({ orders := [] } : Order46Loop Qp Qo) := by
    refine ⟨?_, ?_, ?_⟩
    · intro found hf
      cases hf
    · intro x hx
      cases hx
    · intro c hc
      cases hc
  have hfold : (items.foldl (process get mdEntries b) { orders := [] }).Scaled get raw := by
    refine List.foldlRecOn items _ hinit ?_
    intro s hs item _
    exact hs.process hraw b item
  exact (hfold.dispatch b).1

end Order46Loop

/-- A price stays scaled as the table grows and more messages arrive. -/
theorem Lookup.Scaled.mono {get get' : Lookup Qp Qo} {raw raw' : List (Int × Double)}
    {securityId : Int} {price : Double} (h : get.Scaled raw securityId price)
    (hget : ∀ i s, get i = some s → ∃ s', get' i = some s' ∧ s'.displayFactor = s.displayFactor)
    (hraw : ∀ x ∈ raw, x ∈ raw') : get'.Scaled raw' securityId price := by
  obtain ⟨s, x, hs, hx, rfl⟩ := h
  obtain ⟨s', hs', hf⟩ := hget securityId s hs
  exact ⟨s', x, hs', hraw _ hx, by rw [hf]⟩

/-- The securities that are not discarded are among those of the table. -/
theorem Lookup.Scaled.ofGetSecurity {sd : SecurityDefinitions Qp Qo} {securityId : Int}
    {price : Double} (h : Lookup.Scaled sd.getSecurity raw securityId price) :
    Lookup.Scaled sd.securities raw securityId price :=
  h.mono (fun _ s hs => ⟨s, (getSecurity_eq_some.1 hs).1, rfl⟩) fun _ hx => hx

theorem CallsScaled.ofGetSecurity {sd : SecurityDefinitions Qp Qo} {calls : List Call}
    (h : CallsScaled sd.getSecurity raw calls) : CallsScaled sd.securities raw calls :=
  fun c hc x hx => (h c hc x hx).ofGetSecurity

/-- The orders of a template 47 event, which are kept with their scaled prices. -/
def Orders47Scaled (get : Lookup Qp Qo) (raw : List (Int × Double)) (orders47 : List Order47) :
    Prop :=
  ∀ o ∈ orders47, get.Scaled raw o.securityId o.price

theorem mem_emplaceBack47_price {item : OrderBook47.Entry} {security : Security Qp Qo}
    {securityId : Int} {o : Order47} (h : o ∈ emplaceBack47 item security securityId) :
    o.price = (priceNull9 item.mDEntryPx).mul security.displayFactor := by
  simp only [emplaceBack47] at h
  split at h
  · rw [List.mem_singleton.1 h]
  · rw [List.mem_singleton.1 h]
  · cases h

theorem extend47_scaled {sd : SecurityDefinitions Qp Qo} {cache : Cache}
    (h : Orders47Scaled sd.securities raw cache.orders47) (value : OrderBook47)
    (hraw : ∀ item ∈ value.noMDEntries, (item.securityID, priceNull9 item.mDEntryPx) ∈ raw) :
    Orders47Scaled sd.securities raw (cache.extend47 sd.getSecurity value).orders47 := by
  intro o ho
  rw [Cache.extend47, (OrderBook47Loop.run_spec sd.getSecurity value.noMDEntries cache.orders47
    cache.securityIds47).1, List.mem_append] at ho
  cases ho with
  | inl ho => exact h o ho
  | inr ho =>
    obtain ⟨item, hi, ho⟩ := List.mem_flatMap.1 ho
    obtain ⟨hid, s, hs, ho⟩ := mem_orders47Of ho
    rw [hid, mem_emplaceBack47_price ho]
    exact ⟨s, _, (getSecurity_eq_some.1 hs).1, hraw item (mem_visited47 hi), rfl⟩

theorem orderBook47_scaled (options : Options) {sd : SecurityDefinitions Qp Qo} {cache : Cache}
    (hc : cache.orders = []) (h : Orders47Scaled sd.securities raw cache.orders47)
    (pending : PendingSummary) (value : OrderBook47)
    (hraw : ∀ item ∈ value.noMDEntries, (item.securityID, priceNull9 item.mDEntryPx) ∈ raw) :
    let r := orderBook47 options sd.getSecurity cache pending value
    CallsScaled sd.securities raw r.calls ∧ Orders47Scaled sd.securities raw r.cache.orders47 := by
  intro r
  have hnil : CallsScaled sd.securities raw [] := callsScaled_of_prices (by simp)
  cases he : options.enableMarketByOrder with
  | false =>
    simp only [r, orderBook47, he, Bool.false_eq_true, if_false]
    exact ⟨hnil, h⟩
  | true =>
    have hext := extend47_scaled h value hraw
    simp only [r, orderBook47_eq he _ hc]
    split
    · exact ⟨hnil, hext⟩
    · constructor
      · intro c hc x hx
        obtain ⟨i, -, rfl⟩ := List.mem_map.1 hc
        simp only [Action.prices, orderPrices, ordersFor, List.map_map, List.mem_map,
          List.mem_filter, decide_eq_true_eq] at hx
        obtain ⟨o, ⟨ho, hid⟩, rfl⟩ := hx
        rw [← hid]
        exact hext o ho
      · intro o ho
        cases ho

/-- The entries of a trade summary, which are kept with their raw prices. -/
def PendingSummary.Raw (raw : List (Int × Double)) (p : PendingSummary) : Prop :=
  ∀ e ∈ p.tradeSummary, (e.securityId, e.price) ∈ raw

theorem mem_mboUpdates_price {e : SummaryEntry} {factor : Double} {orders : List (Nat × Int)}
    {offset : Nat} {updates : List MBOUpdate} (h : e.mboUpdates factor orders offset = some updates)
    {u : MBOUpdate} (hu : u ∈ updates) : u.price = e.price.mul factor := by
  simp only [SummaryEntry.mboUpdates] at h
  split at h
  · split at h
    · cases h
    · obtain ⟨makers, -, rfl⟩ := Option.map_eq_some_iff.1 h
      obtain ⟨maker, -, rfl⟩ := List.mem_map.1 hu
      rfl
  · obtain ⟨makers, -, rfl⟩ := Option.map_eq_some_iff.1 h
    obtain ⟨maker, -, rfl⟩ := List.mem_map.1 hu
    rfl

theorem mem_trades_price {e : SummaryEntry} {factor : Double} {orders : List (Nat × Int)}
    {offset : Nat} {trades : List Trade} (h : e.trades factor orders offset = some trades)
    {trade : Trade} (ht : trade ∈ trades) : trade.price = e.price.mul factor := by
  simp only [SummaryEntry.trades] at h
  split at h
  · split at h
    · cases h
    · obtain ⟨makers, -, rfl⟩ := Option.map_eq_some_iff.1 h
      cases List.mem_append.1 ht with
      | inl ht =>
        split at ht
        · split at ht
          · rw [List.mem_singleton.1 ht]
          · cases ht
        · rw [List.mem_singleton.1 ht]
      | inr ht =>
        obtain ⟨maker, -, rfl⟩ := List.mem_map.1 ht
        rfl
  · obtain ⟨makers, -, rfl⟩ := Option.map_eq_some_iff.1 h
    obtain ⟨maker, -, rfl⟩ := List.mem_map.1 ht
    rfl

/-- The calls for a complete summary, for updates of either kind. -/
theorem forSecurities_scaled {δ : Type} {entries : List SummaryEntry}
    (hraw : ∀ e ∈ entries, (e.securityId, e.price) ∈ raw) (price : δ → Double)
    (f : Double → SummaryEntry → Nat → Option (List δ))
    (hf : ∀ factor e offset items, f factor e offset = some items →
      ∀ item ∈ items, price item = e.price.mul factor)
    {action : List δ → Action} (ha : ∀ items, (action items).prices = items.map price)
    {ids : List Int} {calls : List Call}
    (h : forSecurities get (fun securityId security =>
      collect (f security.displayFactor) securityId 0 entries) action ids = some calls) :
    CallsScaled get raw calls := by
  intro c hc x hx
  obtain ⟨i, security, items, hget, hitems, rfl⟩ := mem_forSecurities h hc
  rw [ha] at hx
  obtain ⟨item, hi, rfl⟩ := List.mem_map.1 hx
  obtain ⟨e, he, hid, n, here, hhere, hmem⟩ := mem_collect hitems hi
  have hmine := hraw e he
  rw [hid] at hmine
  exact ⟨security, e.price, hget, hmine, hf _ e n here hhere item hmem⟩

theorem PendingSummary.Raw.calls {p : PendingSummary} (hp : p.Raw raw) {calls : List Call}
    (h : p.calls get = some calls) : CallsScaled get raw calls := by
  simp only [PendingSummary.calls] at h
  split at h
  · next mbo trades hm ht =>
    cases h
    refine CallsScaled.append ?_ ?_
    · exact forSecurities_scaled hp MBOUpdate.price
        (fun factor e offset => e.mboUpdates factor p.orders offset)
        (fun factor e offset items hi u hu => mem_mboUpdates_price hi hu) (fun items => rfl) hm
    · exact forSecurities_scaled hp Trade.price
        (fun factor e offset => e.trades factor p.orders offset)
        (fun factor e offset items hi u hu => mem_trades_price hi hu) (fun items => rfl) ht
  · cases h

theorem PendingSummary.Raw.assemble {p : PendingSummary} (hp : p.Raw raw) (value : TradeSummary)
    (hraw : ∀ item ∈ value.noMDEntries, (item.securityID, price9 item.mDEntryPx) ∈ raw) :
    (p.assemble value).Raw raw := by
  intro e he
  rw [(assemble_spec p value).1, List.mem_append] at he
  cases he with
  | inl he =>
    rw [PendingSummary.since] at he
    split at he
    · exact hp e he
    · cases he
  | inr he =>
    obtain ⟨item, hi, rfl⟩ := List.mem_map.1 he
    exact hraw item hi

theorem dispatchTradeSummary_scaled (get : Lookup Qp Qo) (cache : Cache)
    {pending : PendingSummary} (hp : pending.Raw raw) (value : TradeSummary)
    (hraw : ∀ item ∈ value.noMDEntries, (item.securityID, price9 item.mDEntryPx) ∈ raw) :
    let r := dispatchTradeSummary get cache pending value
    CallsScaled get raw r.calls ∧ r.cache = cache ∧ r.pending.Raw raw := by
  intro r
  have hassemble := hp.assemble value hraw
  have hempty : PendingSummary.Raw raw {} := by
    intro e he
    cases he
  have hreports : CallsScaled get raw (reportCalls get value.noMDEntries) := by
    refine callsScaled_of_prices fun c hc => ?_
    obtain ⟨n, hn⟩ := reportCalls_action get value.noMDEntries c hc
    rw [hn]
    rfl
  simp only [r, dispatchTradeSummary]
  split
  · exact ⟨hreports, rfl, hassemble⟩
  · split
    · next calls hcalls => exact ⟨hreports.append (hassemble.calls hcalls), rfl, hempty⟩
    · exact ⟨hreports, rfl, hempty⟩

section SecurityIterator
variable {α τ : Type} {securityID : α → Int}
variable {dispatch : Int → Found Qp Qo → τ → τ} {callback : Int → Found Qp Qo → α → τ → τ}

variable (get securityID dispatch callback) in
/-- `P` relates the captured state to the current security. A dispatch leaves a state that fits any
security, and so does the absence of one. -/
structure SecurityIterator.Scoped (P : Option (Found Qp Qo) → τ → Prop) (items : List α) :
    Prop where
  passed : ∀ next t, P none t → P next t
  dispatched : ∀ i found next t, P (some found) t → P next (dispatch i found t)
  called : ∀ i found t, ∀ item ∈ items, get.find (securityID item) = some found →
    P (some found) t → P (some found) (callback i found item t)

/-- The iterator refers to the security that it looked up last. -/
def SecurityIterator.Current (get : Lookup Qp Qo) (it : SecurityIterator Qp Qo τ) : Prop :=
  ∀ found, it.security = some found → get.find it.securityId = some found

variable {P : Option (Found Qp Qo) → τ → Prop} {items : List α}

theorem SecurityIterator.Scoped.enter (h : Scoped get securityID dispatch callback P items)
    {it : SecurityIterator Qp Qo τ} (hcur : it.Current get) (hp : P it.security it.state)
    (securityId : Int) :
    let it' := SecurityIterator.enter get dispatch it securityId
    it'.securityId = securityId ∧ it'.Current get ∧ P it'.security it'.state := by
  simp only [SecurityIterator.enter]
  split
  · refine ⟨rfl, fun found hf => hf, ?_⟩
    cases hs : it.security with
    | none =>
      rw [hs] at hp
      exact h.passed _ _ hp
    | some found =>
      rw [hs] at hp
      exact h.dispatched _ found _ _ hp
  · next he => exact ⟨(not_not.1 he).symm, hcur, hp⟩

theorem SecurityIterator.Scoped.step (h : Scoped get securityID dispatch callback P items)
    {it : SecurityIterator Qp Qo τ} (hcur : it.Current get) (hp : P it.security it.state) {item : α}
    (hi : item ∈ items) :
    let it' := SecurityIterator.step get securityID dispatch callback it item
    it'.Current get ∧ P it'.security it'.state := by
  obtain ⟨hid, hcur', hp'⟩ := h.enter hcur hp (securityID item)
  simp only [SecurityIterator.step, SecurityIterator.visit]
  split
  · next found hs =>
    have hfind := hcur' found hs
    rw [hid] at hfind
    rw [hs] at hp'
    refine ⟨hcur', ?_⟩
    simp only [hs]
    exact h.called _ found _ item hi hfind hp'
  · exact ⟨hcur', hp'⟩

/-- The rule for loops over securities whose captured state belongs to the current security. -/
theorem SecurityIterator.Scoped.run (h : Scoped get securityID dispatch callback P items) {s : τ}
    (h0 : P none s) : P none (SecurityIterator.run get securityID dispatch callback items s) := by
  have hinit : ({ state := s } : SecurityIterator Qp Qo τ).Current get ∧
      P ({ state := s } : SecurityIterator Qp Qo τ).security s := by
    refine ⟨?_, h0⟩
    intro found hf
    cases hf
  have hfold := List.foldlRecOn (motive := fun it : SecurityIterator Qp Qo τ =>
    it.Current get ∧ P it.security it.state) items
    (SecurityIterator.step get securityID dispatch callback) hinit
    fun it hit item hi => h.step hit.1 hit.2 hi
  simp only [SecurityIterator.run]
  split
  · next found hs =>
    rw [hs] at hfold
    exact h.dispatched _ found none _ hfold.2
  · next hs =>
    rw [hs] at hfold
    exact hfold.2

end SecurityIterator

/-- The statistics in hand are those of the current security. -/
def StatisticsScaled (get : Lookup Qp Qo) (raw : List (Int × Double))
    (security : Option (Found Qp Qo)) (s : List Statistics × List Call) : Prop :=
  (∀ x ∈ statisticsPrices s.1, ∃ found, security = some found ∧
      get.Scaled raw found.securityId x) ∧ CallsScaled get raw s.2

theorem statisticsScaled_nil (security : Option (Found Qp Qo)) {calls : List Call}
    (h : CallsScaled get raw calls) : StatisticsScaled get raw security ([], calls) :=
  ⟨fun _ hx => (List.not_mem_nil hx).elim, h⟩

/-- The statistics in hand are handed on. -/
theorem StatisticsScaled.dispatch {found : Found Qp Qo} {s : List Statistics × List Call}
    (h : StatisticsScaled get raw (some found) s) :
    CallsScaled get raw (s.2 ++ [⟨found.securityId, .statistics s.1⟩]) := by
  refine h.2.append ?_
  intro c hc x hx
  rw [List.mem_singleton.1 hc] at hx ⊢
  obtain ⟨other, ho, hscaled⟩ := h.1 x hx
  cases ho
  exact hscaled

/-- One more statistic of the current security; the calls with it carry no price. -/
theorem StatisticsScaled.concat {found : Found Qp Qo} {s : List Statistics × List Call}
    (h : StatisticsScaled get raw (some found) s) {item : Statistics}
    (hitem : ∀ x ∈ statisticsPrices [item], get.Scaled raw found.securityId x) {calls : List Call}
    (hcalls : ∀ c ∈ calls, c.action.prices = []) :
    StatisticsScaled get raw (some found) (s.1 ++ [item], s.2 ++ calls) := by
  refine ⟨?_, h.2.append (callsScaled_of_prices hcalls)⟩
  intro x hx
  simp only [statisticsPrices, List.filter_append, List.map_append, List.mem_append] at hx
  cases hx with
  | inl hx => exact h.1 x hx
  | inr hx => exact ⟨found, rfl, hitem x hx⟩

theorem dispatchStatistics_scaled {τ : Type} (cache : Cache) (pending : PendingSummary)
    (callback : StatisticsEntry τ → Security Qp Qo → Statistics) (value : StatisticsMessage τ)
    (hcb : ∀ item ∈ value.noMDEntries, ∀ security, ∀ x ∈ statisticsPrices [callback item security],
      (item.securityID, price9 item.mDEntryPx) ∈ raw ∧
        x = (price9 item.mDEntryPx).mul security.displayFactor) :
    CallsScaled get raw (dispatchStatistics get cache pending callback value).calls := by
  have hscoped : ∀ {dispatch update}, SecurityIterator.Scoped get StatisticsEntry.securityID
      dispatch update (StatisticsScaled get raw) value.noMDEntries →
      CallsScaled get raw (SecurityIterator.run get StatisticsEntry.securityID dispatch update
        value.noMDEntries ([], [])).2 := fun h =>
    (h.run (statisticsScaled_nil none (callsScaled_of_prices (by simp)))).2
  apply hscoped
  refine ⟨?_, ?_, ?_⟩
  · intro next t ht
    refine ⟨?_, ht.2⟩
    intro x hx
    obtain ⟨found, hf, -⟩ := ht.1 x hx
    cases hf
  · intro i found next t ht
    split
    · next he =>
      refine ⟨?_, ht.2⟩
      intro x hx
      rw [he] at hx
      cases hx
    · exact statisticsScaled_nil next ht.dispatch
  · intro i found t item hi hfind ht
    obtain ⟨security, hget, rfl⟩ := Option.map_eq_some_iff.1 hfind
    refine ht.concat ?_ ?_
    · intro x hx
      obtain ⟨hraw, hx⟩ := hcb item hi security x hx
      exact ⟨security, _, hget, hraw, hx⟩
    · refine List.forall_mem_cons.2 ⟨rfl, ?_⟩
      split
      · simp [Action.prices, levelPrices, orderPrices]
      · simp

/-- Of the statistics of an entry, only a price is scaled. -/
theorem mem_statisticsPrices_emplaceBack {τ : Type} (map : τ → StatisticsType)
    (item : StatisticsEntry τ) (security : Security Qp Qo) {x : Double}
    (hx : x ∈ statisticsPrices [statisticsEmplaceBack map item security]) :
    x = (price9 item.mDEntryPx).mul security.displayFactor := by
  rw [statisticsEmplaceBack] at hx
  split at hx
  · cases hx
  · simp only [statisticsPrices, List.mem_map, List.mem_filter, List.mem_singleton] at hx
    obtain ⟨item', ⟨rfl, -⟩, rfl⟩ := hx
    rfl

/-- What a handler finds in the partial events it leaves there scaled, and all prices of its calls
are scaled. -/
theorem react_scaled (options : Options) {sd : SecurityDefinitions Qp Qo} {cache : Cache}
    (hc : cache.orders = []) (h47 : Orders47Scaled sd.securities raw cache.orders47)
    {pending : PendingSummary} (hp : pending.Raw raw) (message : Message)
    (hraw : ∀ x ∈ rawPrices message, x ∈ raw) :
    let r := react options sd cache pending message
    CallsScaled sd.securities raw r.calls ∧ Orders47Scaled sd.securities raw r.cache.orders47 ∧
      r.pending.Raw raw := by
  have hnil : CallsScaled sd.securities raw [] := callsScaled_of_prices (by simp)
  cases message with
  | adminHeartbeat12 | channelReset4 | quoteRequest39 | snapshotFullRefresh52
  | snapshotFullRefreshLongQty69 | snapshotFullRefreshOrderBook53 =>
    exact ⟨hnil, h47, hp⟩
  | securityStatus30 value =>
    refine ⟨callsScaled_of_prices fun c hm => ?_, h47, hp⟩
    obtain ⟨status, hs⟩ := securityStatus30_calls sd cache pending value c hm
    rw [hs]
    rfl
  | instrumentDefinition value =>
    refine ⟨callsScaled_of_prices fun c hm => ?_, h47, hp⟩
    rw [instrumentDefinition_calls sd cache pending value c hm]
    rfl
  | book46 value =>
    have hitems : ∀ item ∈ value.noMDEntries,
        (item.securityID, priceNull9 item.mDEntryPx) ∈ raw := fun item hi =>
      hraw _ (List.mem_map_of_mem hi)
    obtain ⟨hcalls, hentries⟩ := Book46Loop.run_scaled options sd.getSecurity _ hitems
    simp only [react, book46]
    split
    · rw [hc]
      exact ⟨(hcalls.append (Order46Loop.run_scaled hentries _ _)).ofGetSecurity, h47, hp⟩
    · exact ⟨hcalls.ofGetSecurity, h47, hp⟩
  | bookLongQty64 items | volumeLongQty66 items | limitsBanding50 items =>
    refine ⟨callsScaled_of_prices fun c hm => ?_, h47, hp⟩
    obtain ⟨n, hn⟩ := reportOnly_action sd.getSecurity cache pending items c hm
    rw [hn]
    rfl
  | orderBook47 value =>
    have hitems : ∀ item ∈ value.noMDEntries,
        (item.securityID, priceNull9 item.mDEntryPx) ∈ raw := fun item hi =>
      hraw _ (List.mem_map_of_mem hi)
    obtain ⟨hcalls, horders⟩ := orderBook47_scaled options hc h47 pending value hitems
    refine ⟨hcalls, horders, ?_⟩
    simp only [react, orderBook47]
    split
    · split
      · exact hp
      · exact hp
    · exact hp
  | tradeSummary48 value | tradeSummaryLongQty65 value =>
    obtain ⟨hcalls, hcache, hpending⟩ := dispatchTradeSummary_scaled sd.getSecurity cache
      hp value fun item hi => hraw _ (List.mem_map_of_mem hi)
    simp only [react]
    rw [hcache]
    exact ⟨hcalls.ofGetSecurity, h47, hpending⟩
  | dailyStatistics49 value | sessionStatistics51 value | sessionStatisticsLongQty67 value =>
    refine ⟨(dispatchStatistics_scaled cache pending _ value ?_).ofGetSecurity, h47, hp⟩
    intro item hi security x hx
    exact ⟨hraw _ (List.mem_map_of_mem hi), mem_statisticsPrices_emplaceBack _ item security hx⟩
  | volume37 value =>
    refine ⟨(dispatchStatistics_scaled cache pending _ value ?_).ofGetSecurity, h47, hp⟩
    intro item hi security x hx
    cases hx

end RoqCme.MarketData
