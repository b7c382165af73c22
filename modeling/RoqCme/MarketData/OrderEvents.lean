import RoqCme.MarketData.Locality
import RoqCme.MarketData.Views

/-! Events of template 47, which are collected over several messages of a channel and submitted
with the last one: one submission for each security of the event, with its orders. -/
namespace RoqCme.MarketData
open RoqCme.Mdp RoqCme.Tools
variable {Qp Qo : Type}

/-- The entries that the loop looks at. It starts out as if it had just seen security zero. -/
def visited47 (items : List OrderBook47.Entry) : List OrderBook47.Entry :=
  items.dropWhile fun item => item.securityID = 0

/-- The orders that an entry adds to the event. -/
def orders47Of (get : Lookup Qp Qo) (item : OrderBook47.Entry) : List Order47 :=
  match get item.securityID with
  | some security => emplaceBack47 item security item.securityID
  | none => []

/-- The orders of one security as they are submitted. -/
def ordersFor (securityId : Int) (orders47 : List Order47) : List MBOUpdate :=
  (orders47.filter fun item => item.securityId = securityId).map Order47.mboUpdate

namespace OrderBook47Loop

/-- The loop holds the security of the last entry, which is listed if it is known. -/
structure Current (get : Lookup Qp Qo) (s : OrderBook47Loop Qp Qo) : Prop where
  security : s.security = get.find s.securityId
  listed : s.security.isSome → s.securityId ∈ s.securityIds47

theorem find_isSome (get : Lookup Qp Qo) (securityId : Int) :
    (get.find securityId).isSome = (get securityId).isSome := by
  simp [Lookup.find]

/-- The next entry is looked up, or it is one more of the same security. -/
def entered (get : Lookup Qp Qo) (s : OrderBook47Loop Qp Qo) (securityId : Int) :
    OrderBook47Loop Qp Qo :=
  if securityId ≠ s.securityId then
    { s with
      securityId := securityId, security := get.find securityId
      securityIds47 :=
        if (get.find securityId).isSome ∧ securityId ∉ s.securityIds47 then
          s.securityIds47 ++ [securityId]
        else s.securityIds47 }
  else s

theorem process_eq (get : Lookup Qp Qo) (s : OrderBook47Loop Qp Qo) (item : OrderBook47.Entry) :
    process get s item =
      match (entered get s item.securityID).security with
      | some found => { entered get s item.securityID with
          orders47 := (entered get s item.securityID).orders47 ++
            emplaceBack47 item found.security (entered get s item.securityID).securityId }
      | none => entered get s item.securityID := rfl

/-- A known security is listed once. -/
theorem mem_listed (get : Lookup Qp Qo) (ids : List Int) (securityId i : Int) :
    i ∈ (if (get.find securityId).isSome ∧ securityId ∉ ids then ids ++ [securityId] else ids) ↔
      i ∈ ids ∨ i = securityId ∧ (get i).isSome := by
  rw [find_isSome]
  split
  · next hadd =>
    rw [List.mem_append, List.mem_singleton]
    constructor
    · rintro (hi | rfl)
      · exact Or.inl hi
      · exact Or.inr ⟨rfl, hadd.1⟩
    · rintro (hi | ⟨rfl, -⟩)
      · exact Or.inl hi
      · exact Or.inr rfl
  · next hadd =>
    constructor
    · exact Or.inl
    · rintro (hi | ⟨rfl, hi⟩)
      · exact hi
      · by_contra hno
        exact hadd ⟨hi, hno⟩

theorem nodup_listed (get : Lookup Qp Qo) {ids : List Int} (securityId : Int) (h : ids.Nodup) :
    (if (get.find securityId).isSome ∧ securityId ∉ ids then ids ++ [securityId]
      else ids).Nodup := by
  split
  · next hadd =>
    rw [← List.concat_eq_append]
    exact h.concat hadd.2
  · exact h

theorem entered_spec {get : Lookup Qp Qo} {s : OrderBook47Loop Qp Qo} {securityId : Int}
    (h : s.Current get ∨ securityId ≠ s.securityId) :
    (entered get s securityId).Current get ∧
      (entered get s securityId).securityId = securityId ∧
      (entered get s securityId).orders47 = s.orders47 ∧
      (∀ i, i ∈ (entered get s securityId).securityIds47 ↔
        i ∈ s.securityIds47 ∨ i = securityId ∧ (get i).isSome) ∧
      (s.securityIds47.Nodup → (entered get s securityId).securityIds47.Nodup) := by
  by_cases he : securityId = s.securityId
  · obtain hc | hne := h
    · have hsame : entered get s securityId = s := by simp [entered, he]
      rw [hsame]
      refine ⟨hc, he.symm, rfl, ?_, id⟩
      intro i
      constructor
      · exact Or.inl
      · rintro (hi | ⟨rfl, hi⟩)
        · exact hi
        · have hsome : s.security.isSome := by rw [hc.security, find_isSome, ← he]; exact hi
          rw [he]
          exact hc.listed hsome
    · exact absurd he hne
  · rw [entered, if_pos he]
    refine ⟨⟨rfl, ?_⟩, rfl, rfl, mem_listed get s.securityIds47 securityId,
      nodup_listed get securityId⟩
    intro hsome
    rw [find_isSome] at hsome
    exact (mem_listed get s.securityIds47 securityId securityId).2 (Or.inr ⟨rfl, hsome⟩)

theorem process_spec (get : Lookup Qp Qo) (s : OrderBook47Loop Qp Qo) (item : OrderBook47.Entry)
    (h : s.Current get ∨ item.securityID ≠ s.securityId) :
    (process get s item).Current get ∧
      (process get s item).orders47 = s.orders47 ++ orders47Of get item ∧
      (∀ i, i ∈ (process get s item).securityIds47 ↔
        i ∈ s.securityIds47 ∨ i = item.securityID ∧ (get i).isSome) ∧
      (s.securityIds47.Nodup → (process get s item).securityIds47.Nodup) := by
  obtain ⟨hc, hid, horders, hids, hnodup⟩ := entered_spec h
  have hsec := hc.security
  rw [hid] at hsec
  rw [process_eq]
  cases hget : get item.securityID with
  | none =>
    have hnone : (entered get s item.securityID).security = none := by
      rw [hsec, Lookup.find, hget]
      rfl
    simp only [hnone, orders47Of, hget, List.append_nil]
    exact ⟨hc, horders, hids, hnodup⟩
  | some security =>
    have hsome : (entered get s item.securityID).security = some ⟨item.securityID, security⟩ := by
      rw [hsec, Lookup.find, hget]
      rfl
    simp only [hsome, orders47Of, hget]
    refine ⟨⟨?_, ?_⟩, ?_, hids, hnodup⟩
    · have hcurrent := hc.security
      rw [hsome] at hcurrent
      exact hcurrent
    · intro _
      exact hc.listed (by rw [hsome]; rfl)
    · rw [horders, hid]

theorem run_current {get : Lookup Qp Qo} (items : List OrderBook47.Entry)
    {s : OrderBook47Loop Qp Qo} (h : s.Current get) :
    (items.foldl (process get) s).orders47 = s.orders47 ++ items.flatMap (orders47Of get) ∧
      (∀ i, i ∈ (items.foldl (process get) s).securityIds47 ↔
        i ∈ s.securityIds47 ∨ (∃ item ∈ items, item.securityID = i) ∧ (get i).isSome) ∧
      (s.securityIds47.Nodup → (items.foldl (process get) s).securityIds47.Nodup) := by
  induction items generalizing s with
  | nil => simp
  | cons item items ih =>
    obtain ⟨hc, horders, hids, hnodup⟩ := process_spec get s item (Or.inl h)
    obtain ⟨ih1, ih2, ih3⟩ := ih hc
    rw [List.foldl_cons]
    refine ⟨?_, ?_, fun hn => ih3 (hnodup hn)⟩
    · rw [ih1, horders, List.flatMap_cons, List.append_assoc]
    · intro i
      rw [ih2, hids]
      constructor
      · rintro ((hi | ⟨rfl, hs⟩) | ⟨⟨x, hx, hxi⟩, hs⟩)
        · exact Or.inl hi
        · exact Or.inr ⟨⟨item, by simp, rfl⟩, hs⟩
        · exact Or.inr ⟨⟨x, List.mem_cons_of_mem item hx, hxi⟩, hs⟩
      · rintro (hi | ⟨⟨x, hx, rfl⟩, hs⟩)
        · exact Or.inl (Or.inl hi)
        · cases List.mem_cons.1 hx with
          | inl hx =>
            subst hx
            exact Or.inl (Or.inr ⟨rfl, hs⟩)
          | inr hx => exact Or.inr ⟨⟨x, hx, rfl⟩, hs⟩

/-- What a message adds to the event of its channel. -/
theorem run_spec (get : Lookup Qp Qo) (items : List OrderBook47.Entry) (orders47 : List Order47)
    (securityIds47 : List Int) :
    let s := items.foldl (process get) { orders47 := orders47, securityIds47 := securityIds47 }
    s.orders47 = orders47 ++ (visited47 items).flatMap (orders47Of get) ∧
      (∀ i, i ∈ s.securityIds47 ↔
        i ∈ securityIds47 ∨ (∃ item ∈ visited47 items, item.securityID = i) ∧ (get i).isSome) ∧
      (securityIds47.Nodup → s.securityIds47.Nodup) := by
  induction items with
  | nil => simp [visited47]
  | cons item items ih =>
    by_cases h0 : item.securityID = 0
    · have hsame : process get { orders47 := orders47, securityIds47 := securityIds47 } item =
          { orders47 := orders47, securityIds47 := securityIds47 } := by
        simp [process, h0]
      have hv : visited47 (item :: items) = visited47 items := by simp [visited47, h0]
      rw [List.foldl_cons, hsame, hv]
      exact ih
    · have hv : visited47 (item :: items) = item :: items := by simp [visited47, h0]
      obtain ⟨hc, horders, hids, hnodup⟩ := process_spec get
        { orders47 := orders47, securityIds47 := securityIds47 } item (Or.inr h0)
      obtain ⟨h1, h2, h3⟩ := run_current items hc
      simp only [List.foldl_cons, hv]
      refine ⟨?_, ?_, fun hn => h3 (hnodup hn)⟩
      · rw [h1, horders, List.flatMap_cons, List.append_assoc]
      · intro i
        rw [h2, hids]
        simp only [List.mem_cons]
        constructor
        · rintro ((hi | ⟨rfl, hs⟩) | ⟨⟨x, hx, hxi⟩, hs⟩)
          · exact Or.inl hi
          · exact Or.inr ⟨⟨item, Or.inl rfl, rfl⟩, hs⟩
          · exact Or.inr ⟨⟨x, Or.inr hx, hxi⟩, hs⟩
        · rintro (hi | ⟨⟨x, rfl | hx, rfl⟩, hs⟩)
          · exact Or.inl (Or.inl hi)
          · exact Or.inl (Or.inr ⟨rfl, hs⟩)
          · exact Or.inr ⟨⟨x, hx, rfl⟩, hs⟩

end OrderBook47Loop

theorem flush47_spec (get : Lookup Qp Qo) (orders47 : List Order47) (ids : List Int) :
    flush47 get orders47 ids [] =
      ([], (ids.filter fun i => (get i).isSome).map fun i =>
        ⟨i, .dispatchOrderBook47 (ordersFor i orders47)⟩) := by
  induction ids with
  | nil => rfl
  | cons i ids ih =>
    cases hget : get i with
    | none => simp [flush47, hget, ih]
    | some s => simp [flush47, hget, ih, ordersFor]

namespace Order46Loop

/-- Orders are only kept for a security that the loop holds. -/
def Flushed (s : Order46Loop Qp Qo) : Prop :=
  s.security = none → s.orders = []

theorem dispatch_orders {s : Order46Loop Qp Qo} (h : s.Flushed) (b : Bool) :
    (s.dispatch b).orders = [] := by
  unfold dispatch
  cases hs : s.security with
  | none => exact h hs
  | some found =>
    simp only
    split
    · next he => exact he
    · rfl

theorem process_flushed (get : Lookup Qp Qo) (mdEntries : List MdEntry) (b : Bool)
    {s : Order46Loop Qp Qo} (h : s.Flushed) (item : Book46.OrderEntry) :
    (process get mdEntries b s item).Flushed := by
  have henter : ∀ securityId, (s.enter get b securityId).Flushed := by
    intro securityId
    unfold enter
    split
    · intro _
      exact dispatch_orders h b
    · exact h
  simp only [process]
  split
  · exact h
  · split
    · exact h
    · next entry _ =>
      unfold collect
      split
      · next found hs =>
        intro hnone
        rw [hs] at hnone
        cases hnone
      · exact henter entry.securityId

/-- What the loop collects it also submits. -/
theorem run_orders (get : Lookup Qp Qo) (mdEntries : List MdEntry) (b : Bool)
    (items : List Book46.OrderEntry) : (run get mdEntries b [] items).orders = [] := by
  apply dispatch_orders
  refine List.foldlRecOn items _ ?_ ?_
  · intro _
    rfl
  · intro s hs item _
    exact process_flushed get mdEntries b hs item

end Order46Loop

/-- What holds of the partial events of a channel between two messages: no orders of template
46 are left over, and every order belongs to a listed security. -/
structure Cache.Tidy (cache : Cache) : Prop where
  orders : cache.orders = []
  nodup : cache.securityIds47.Nodup
  listed : ∀ o ∈ cache.orders47, o.securityId ∈ cache.securityIds47

theorem Cache.tidy_empty : Cache.Tidy {} :=
  ⟨rfl, List.nodup_nil, fun o ho => by cases ho⟩

theorem mem_emplaceBack47 {item : OrderBook47.Entry} {security : Security Qp Qo}
    {securityId : Int} {o : Order47} (h : o ∈ emplaceBack47 item security securityId) :
    o.securityId = securityId := by
  unfold emplaceBack47 at h
  simp only at h
  split at h
  · rw [List.mem_singleton.1 h]
  · rw [List.mem_singleton.1 h]
  · cases h

theorem mem_orders47Of {get : Lookup Qp Qo} {item : OrderBook47.Entry} {o : Order47}
    (h : o ∈ orders47Of get item) :
    o.securityId = item.securityID ∧ ∃ s, get item.securityID = some s ∧
      o ∈ emplaceBack47 item s item.securityID := by
  unfold orders47Of at h
  cases hget : get item.securityID with
  | none => rw [hget] at h; cases h
  | some s =>
    rw [hget] at h
    exact ⟨mem_emplaceBack47 h, s, rfl, h⟩

/-- The event of the channel with the entries of one more message. -/
def Cache.extend47 (get : Lookup Qp Qo) (cache : Cache) (value : OrderBook47) :
    OrderBook47Loop Qp Qo :=
  value.noMDEntries.foldl (OrderBook47Loop.process get)
    { orders47 := cache.orders47, securityIds47 := cache.securityIds47 }

theorem extend47_nodup (get : Lookup Qp Qo) {cache : Cache} (h : cache.securityIds47.Nodup)
    (value : OrderBook47) : (cache.extend47 get value).securityIds47.Nodup :=
  (OrderBook47Loop.run_spec get value.noMDEntries cache.orders47 cache.securityIds47).2.2 h

theorem orderBook47_eq {options : Options} (h : options.enableMarketByOrder = true)
    (get : Lookup Qp Qo) {cache : Cache} (hc : cache.orders = []) (pending : PendingSummary)
    (value : OrderBook47) :
    orderBook47 options get cache pending value =
      if value.matchEventIndicator = 0 then
        { cache := { orders47 := (cache.extend47 get value).orders47
                     securityIds47 := (cache.extend47 get value).securityIds47 }
          pending := pending, exchangeTimeUtc := value.transactTime }
      else
        { cache := {}, pending := pending, exchangeTimeUtc := value.transactTime
          calls := ((cache.extend47 get value).securityIds47.filter fun i => (get i).isSome).map
            fun i => ⟨i, .dispatchOrderBook47 (ordersFor i (cache.extend47 get value).orders47)⟩ } := by
  simp only [orderBook47, h, if_true, hc, flush47_spec]
  rfl

theorem Cache.Tidy.react {cache : Cache} (h : cache.Tidy) (options : Options)
    (sd : SecurityDefinitions Qp Qo) (pending : PendingSummary) (message : Message) :
    (react options sd cache pending message).cache.Tidy := by
  cases message with
  | book46 value =>
    simp only [MarketData.react, book46]
    split
    · rw [h.orders]
      exact ⟨Order46Loop.run_orders _ _ _ _, h.nodup, h.listed⟩
    · exact h
  | orderBook47 value =>
    cases he : options.enableMarketByOrder with
    | false =>
      simp only [MarketData.react, orderBook47, he, Bool.false_eq_true, if_false]
      exact h
    | true =>
      simp only [MarketData.react, orderBook47_eq he _ h.orders]
      split
      · obtain ⟨horders, hids, hnodup⟩ := OrderBook47Loop.run_spec sd.getSecurity value.noMDEntries
          cache.orders47 cache.securityIds47
        refine ⟨rfl, hnodup h.nodup, ?_⟩
        intro o ho
        simp only [Cache.extend47] at ho ⊢
        rw [horders, List.mem_append] at ho
        rw [hids]
        cases ho with
        | inl ho => exact Or.inl (h.listed o ho)
        | inr ho =>
          obtain ⟨item, hi, ho⟩ := List.mem_flatMap.1 ho
          obtain ⟨hid, s, hs, -⟩ := mem_orders47Of ho
          exact Or.inr ⟨⟨item, hi, hid.symm⟩, by rw [hid, hs]; rfl⟩
      · exact Cache.tidy_empty
  | tradeSummary48 value | tradeSummaryLongQty65 value =>
    simp only [MarketData.react, dispatchTradeSummary]
    split
    · exact h
    · split
      · exact h
      · exact h
  | _ => exact h

/-- Only template 47 adds to the events of a channel. -/
theorem react_cache47 (options : Options) (sd : SecurityDefinitions Qp Qo) (cache : Cache)
    (pending : PendingSummary) {message : Message} (h : ∀ value, message ≠ .orderBook47 value) :
    (react options sd cache pending message).cache.orders47 = cache.orders47 ∧
      (react options sd cache pending message).cache.securityIds47 = cache.securityIds47 := by
  cases message with
  | orderBook47 value => exact absurd rfl (h value)
  | book46 value =>
    simp only [react, book46]
    split
    · exact ⟨rfl, rfl⟩
    · exact ⟨rfl, rfl⟩
  | tradeSummary48 value | tradeSummaryLongQty65 value =>
    simp only [react, dispatchTradeSummary]
    split
    · exact ⟨rfl, rfl⟩
    · split
      · exact ⟨rfl, rfl⟩
      · exact ⟨rfl, rfl⟩
  | _ => exact ⟨rfl, rfl⟩

/-- Over every run the partial events stay tidy. -/
theorem step_tidy (env : Env Qp Qo) (f : Feeds Qp Qo) (d : Delivery)
    (h : ∀ channelId, (f.caches channelId).Tidy) (channelId : Nat) :
    ((f.step env d).caches channelId).Tidy := by
  cases d with
  | incremental c streamId frame message =>
    by_cases he : channelId = c
    · subst he
      simp only [Feeds.step, Function.update_self]
      exact (h channelId).react _ _ _ _
    · simp only [Feeds.step, Function.update_of_ne he]
      exact h channelId
  | sequenceReset c =>
    by_cases he : channelId = c
    · subst he
      simp only [Feeds.step, Function.update_self]
      exact Cache.tidy_empty
    · simp only [Feeds.step, Function.update_of_ne he]
      exact h channelId
  | _ => exact h channelId

theorem run_tidy (env : Env Qp Qo) (deliveries : List Delivery) (f : Feeds Qp Qo)
    (h : ∀ channelId, (f.caches channelId).Tidy) (channelId : Nat) :
    ((Feeds.run env deliveries f).caches channelId).Tidy := by
  induction deliveries generalizing f with
  | nil => exact h channelId
  | cons d deliveries ih => exact ih (f.step env d) (step_tidy env f d h)

theorem start_tidy {β : Type} (S : Setup β Qp Qo) (channelIds : List Nat) (b : β) (items : List SecDef)
    (channelId : Nat) : ((S.start channelIds b items).feeds.caches channelId).Tidy := by
  simp only [Manager.feeds, Setup.start]
  split
  · next item h =>
    split at h
    · cases h
      exact Cache.tidy_empty
    · cases h
  · exact Cache.tidy_empty

end RoqCme.MarketData
