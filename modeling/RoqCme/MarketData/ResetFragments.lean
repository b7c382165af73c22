import RoqCme.MarketData.ChannelIsolation
import RoqCme.MarketData.OptIn
import RoqCme.MarketData.OrderEvents

/-! What a sequence reset leaves of partially assembled events. The cache of the channel is
emptied; the pending trade summary is kept in the shared state and survives. Where nothing is
pending at a reset, all that is published later is made of what arrived after it. -/
namespace RoqCme.MarketData
open RoqCme.Lib RoqCme.Mdp RoqCme.Tools
variable {Qp Qo : Type}

def Delivery.summary : Delivery → Option TradeSummary
  | .incremental _ _ _ message => tradeSummaryOf message
  | _ => none

def summariesOf (deliveries : List Delivery) : List TradeSummary :=
  deliveries.filterMap Delivery.summary

/-- The entries of the template 47 messages of a channel. -/
def Delivery.entries47 (channelId : Nat) : Delivery → List OrderBook47.Entry
  | .incremental c _ _ (.orderBook47 value) => if c = channelId then value.noMDEntries else []
  | _ => []

def entries47 (channelId : Nat) (deliveries : List Delivery) : List OrderBook47.Entry :=
  deliveries.flatMap (Delivery.entries47 channelId)

/-- What is pending after one more trade summary message. -/
def PendingSummary.next (p : PendingSummary) (value : TradeSummary) : PendingSummary :=
  if (p.assemble value).orders.length < (p.assemble value).totalNumberOfOrders then p.assemble value
  else {}

def entriesIn (values : List TradeSummary) : List SummaryEntry :=
  values.flatMap fun value => value.noMDEntries.map SummaryEntry.ofItem

def ordersIn (values : List TradeSummary) : List (Nat × Int) :=
  values.flatMap fun value => value.noOrderIDEntries.map fun item => (item.orderID, toInt32 item.lastQty)

/-- A trade of the entry, with the orders of its taker and its maker. -/
structure TradeOf (e : SummaryEntry) (orders : List (Nat × Int)) (trade : Trade) : Prop where
  side : trade.side = e.aggressorSide
  tradeId : trade.tradeId = e.tradeId
  quantity : ∃ order ∈ orders, trade.quantity = order.2
  taker : ∀ id, trade.takerOrderId = some id → ∃ order ∈ orders, order.1 = id
  maker : ∀ id, trade.makerOrderId = some id → ∃ order ∈ orders, order.1 = id

/-- The trades and orders of an update come from these entries and these orders. -/
def Action.MadeOf (entries : List SummaryEntry) (orders : List (Nat × Int)) : Action → Prop
  | .tradeSummary trades => ∀ trade ∈ trades, ∃ e ∈ entries, TradeOf e orders trade
  | .dispatchMarketByOrder updates _ => ∀ u ∈ updates, ∃ order ∈ orders,
      u.orderId = some order.1 ∧ u.quantity = order.2
  | _ => True

/-- The order was made from one of these entries of template 47. -/
def Order47.MadeOf (Qp Qo : Type) (items : List OrderBook47.Entry) (o : Order47) : Prop :=
  ∃ item ∈ items, ∃ s : Security Qp Qo, o ∈ emplaceBack47 item s item.securityID

theorem react_next (options : Options) (sd : SecurityDefinitions Qp Qo) (cache : Cache)
    (pending : PendingSummary) (message : Message) :
    (react options sd cache pending message).pending =
      match tradeSummaryOf message with
      | some value => pending.next value
      | none => pending := by
  cases hm : tradeSummaryOf message with
  | none => rw [react_pending options sd cache pending hm]
  | some value =>
    rw [react_tradeSummary options sd cache pending hm]
    simp only [dispatchTradeSummary, PendingSummary.next]
    split
    · rfl
    · split
      · rfl
      · rfl

theorem onSecurity_pending (shared : Shared Qp Qo) (securityId : Int) (site : Site)
    (op : SecurityOp Qp Qo) : (shared.onSecurity securityId site op).pending = shared.pending := by
  unfold Shared.onSecurity
  split
  · rfl
  · rfl

theorem step_next (env : Env Qp Qo) (f : Feeds Qp Qo) (d : Delivery) :
    (f.step env d).shared.pending =
      match d.summary with
      | some value => f.shared.pending.next value
      | none => f.shared.pending := by
  cases d with
  | incremental c streamId frame message =>
    simp only [Feeds.step, Incremental.onMessage, performAll_pending, Delivery.summary, react_next]
  | sequenceReset c => rfl
  | instrumentDefinition streamId frame message =>
    simp only [Feeds.step, InstrumentDefinition.onMessage, Delivery.summary]
    split
    · split
      · rfl
      · rw [performAll_pending]
    · rfl
  | mbpRecovery streamId frame sequence message =>
    simp only [Feeds.step, MBPMarketRecovery.onMessage, Delivery.summary]
    split
    · split
      · rw [onSecurity_pending]
      · rfl
    · split
      · rw [onSecurity_pending]
      · rfl
    · rfl
  | mbofdRecovery streamId sequence message =>
    simp only [Feeds.step, MBOFDMarketRecovery.onMessage, Delivery.summary]
    split
    · split
      · rw [onSecurity_pending]
      · rfl
    · rfl

/-- The pending summary depends on the trade summaries delivered and on nothing else. -/
theorem run_next (env : Env Qp Qo) (deliveries : List Delivery) (f : Feeds Qp Qo) :
    (Feeds.run env deliveries f).shared.pending =
      (summariesOf deliveries).foldl PendingSummary.next f.shared.pending := by
  induction deliveries generalizing f with
  | nil => rfl
  | cons d deliveries ih =>
    have hstep := ih (f.step env d)
    rw [step_next] at hstep
    simp only [Feeds.run, List.foldl_cons, summariesOf] at hstep ⊢
    rw [hstep]
    cases hd : d.summary with
    | none => simp [hd]
    | some value => simp [hd]

/-- What one more message adds to the pending entries and orders. -/
theorem assemble_orders (p : PendingSummary) (value : TradeSummary) :
    (p.assemble value).orders = (p.since value.transactTime).orders ++ ordersIn [value] := by
  have horders : ∀ (items : List TradeSummary.OrderEntry) (q : PendingSummary),
      (items.foldl PendingSummary.addOrder q).orders =
        q.orders ++ items.map fun item => (item.orderID, toInt32 item.lastQty) := by
    intro items
    induction items with
    | nil => simp
    | cons item items ih =>
      intro q
      rw [List.foldl_cons, ih, PendingSummary.addOrder, List.map_cons, List.append_assoc]
      rfl
  have hentries := (addEntries_spec value.noMDEntries (p.since value.transactTime)).2.2
  have hassemble : p.assemble value = value.noOrderIDEntries.foldl PendingSummary.addOrder
      (value.noMDEntries.foldl PendingSummary.addEntry (p.since value.transactTime)) := rfl
  rw [hassemble, horders, hentries]
  simp [ordersIn]

/-- Everything pending is among these entries and orders. -/
structure PendingSummary.Among (entries : List SummaryEntry) (orders : List (Nat × Int))
    (p : PendingSummary) : Prop where
  entries : ∀ e ∈ p.tradeSummary, e ∈ entries
  orders : ∀ order ∈ p.orders, order ∈ orders

theorem PendingSummary.among_empty (entries : List SummaryEntry) (orders : List (Nat × Int)) :
    PendingSummary.Among entries orders {} where
  entries e he := by cases he
  orders o ho := by cases ho

theorem PendingSummary.Among.assemble {p : PendingSummary} {values : List TradeSummary}
    (h : p.Among (entriesIn values) (ordersIn values)) (value : TradeSummary) :
    (p.assemble value).Among (entriesIn (values ++ [value])) (ordersIn (values ++ [value])) := by
  have hsince : (p.since value.transactTime).Among (entriesIn values) (ordersIn values) := by
    unfold PendingSummary.since
    split
    · exact h
    · constructor
      · intro e he
        cases he
      · intro o ho
        cases ho
  have he : entriesIn (values ++ [value]) =
      entriesIn values ++ value.noMDEntries.map SummaryEntry.ofItem := by simp [entriesIn]
  have ho : ordersIn (values ++ [value]) = ordersIn values ++ ordersIn [value] := by
    simp [ordersIn]
  constructor
  · intro e hm
    rw [(assemble_spec p value).1, List.mem_append] at hm
    rw [he, List.mem_append]
    cases hm with
    | inl hm => exact Or.inl (hsince.entries e hm)
    | inr hm => exact Or.inr hm
  · intro o hm
    rw [assemble_orders, List.mem_append] at hm
    rw [ho, List.mem_append]
    cases hm with
    | inl hm => exact Or.inl (hsince.orders o hm)
    | inr hm => exact Or.inr hm

/-- Starting from nothing, only what the messages carry is pending after them. -/
theorem foldl_next_among (values : List TradeSummary) :
    (values.foldl PendingSummary.next {}).Among (entriesIn values) (ordersIn values) := by
  induction values using List.reverseRecOn with
  | nil => exact PendingSummary.among_empty _ _
  | append_singleton values value ih =>
    rw [List.foldl_append, List.foldl_cons, List.foldl_nil]
    unfold PendingSummary.next
    split
    · exact ih.assemble value
    · exact PendingSummary.among_empty _ _

theorem mem_collect {δ : Type} {f : SummaryEntry → Nat → Option (List δ)} {securityId : Int}
    {offset : Nat} {entries : List SummaryEntry} {items : List δ}
    (h : collect f securityId offset entries = some items) {x : δ} (hx : x ∈ items) :
    ∃ e ∈ entries, e.securityId = securityId ∧ ∃ n here, f e n = some here ∧ x ∈ here := by
  induction entries generalizing offset items with
  | nil =>
    rw [collect, Option.some.injEq] at h
    subst h
    cases hx
  | cons e entries ih =>
    unfold collect at h
    split at h
    · next here later hh hl =>
      cases h
      cases List.mem_append.1 hx with
      | inl hx =>
        by_cases hs : securityId = e.securityId
        · rw [if_pos hs] at hh
          exact ⟨e, by simp, hs.symm, _, here, hh, hx⟩
        · rw [if_neg hs] at hh
          cases hh
          cases hx
      | inr hx =>
        obtain ⟨e', he', hid, n, here', hf, hx'⟩ := ih hl hx
        exact ⟨e', List.mem_cons_of_mem e he', hid, n, here', hf, hx'⟩
    · cases h

theorem mem_forSecurities {δ : Type} {get : Lookup Qp Qo}
    {content : Int → Security Qp Qo → Option (List δ)} {action : List δ → Action} {ids : List Int}
    {calls : List Call} (h : forSecurities get content action ids = some calls) {call : Call}
    (hc : call ∈ calls) :
    ∃ securityId security items, get securityId = some security ∧
      content securityId security = some items ∧ call = ⟨securityId, action items⟩ := by
  induction ids generalizing calls with
  | nil =>
    rw [forSecurities, Option.some.injEq] at h
    subst h
    cases hc
  | cons i ids ih =>
    simp only [forSecurities] at h
    split at h
    · exact ih h hc
    · next security later hg hl =>
      obtain ⟨items, hitems, he⟩ := Option.map_eq_some_iff.1 h
      subst he
      split at hc
      · exact ih hl hc
      · cases List.mem_cons.1 hc with
        | inl hc => exact ⟨i, security, items, hg, hitems, hc⟩
        | inr hc => exact ih hl hc
    · cases h

theorem mem_ordersFrom {orders : List (Nat × Int)} {offset offset2 n : Nat}
    {result : List (Nat × Int)} (h : ordersFrom orders offset offset2 n = some result)
    {order : Nat × Int} (ho : order ∈ result) : order ∈ orders := by
  unfold ordersFrom at h
  split at h
  · cases h
    cases ho
  · split at h
    · cases h
      exact List.mem_of_mem_drop (List.mem_of_mem_take ho)
    · cases h

theorem mem_mboUpdates {e : SummaryEntry} {factor : Double} {orders : List (Nat × Int)}
    {offset : Nat} {updates : List MBOUpdate} (h : e.mboUpdates factor orders offset = some updates)
    {u : MBOUpdate} (hu : u ∈ updates) :
    ∃ order ∈ orders, u.orderId = some order.1 ∧ u.quantity = order.2 := by
  unfold SummaryEntry.mboUpdates at h
  simp only at h
  split at h
  · split at h
    · cases h
    · next taker ht =>
      obtain ⟨makers, hmakers, he⟩ := Option.map_eq_some_iff.1 h
      subst he
      obtain ⟨maker, hm, rfl⟩ := List.mem_map.1 hu
      exact ⟨maker, mem_ordersFrom hmakers hm, rfl, rfl⟩
  · obtain ⟨makers, hmakers, he⟩ := Option.map_eq_some_iff.1 h
    subst he
    obtain ⟨maker, hm, rfl⟩ := List.mem_map.1 hu
    exact ⟨maker, mem_ordersFrom hmakers hm, rfl, rfl⟩

theorem mem_trades {e : SummaryEntry} {factor : Double} {orders : List (Nat × Int)}
    {offset : Nat} {trades : List Trade} (h : e.trades factor orders offset = some trades)
    {trade : Trade} (ht : trade ∈ trades) : TradeOf e orders trade := by
  unfold SummaryEntry.trades at h
  simp only at h
  split at h
  · split at h
    · cases h
    · next taker htaker =>
      have hmem : taker ∈ orders := List.mem_of_getElem? htaker
      obtain ⟨makers, hmakers, he⟩ := Option.map_eq_some_iff.1 h
      subst he
      cases List.mem_append.1 ht with
      | inl ht =>
        have hself : trade =
            ⟨e.aggressorSide, e.price.mul factor, taker.2, e.tradeId, some taker.1, none⟩ := by
          split at ht
          · split at ht
            · exact List.mem_singleton.1 ht
            · cases ht
          · exact List.mem_singleton.1 ht
        subst hself
        refine ⟨rfl, rfl, ⟨taker, hmem, rfl⟩, ?_, ?_⟩
        · intro id hid
          exact ⟨taker, hmem, Option.some.inj hid⟩
        · intro id hid
          cases hid
      | inr ht =>
        obtain ⟨maker, hm, rfl⟩ := List.mem_map.1 ht
        have hmaker := mem_ordersFrom hmakers hm
        refine ⟨rfl, rfl, ⟨maker, hmaker, rfl⟩, ?_, ?_⟩
        · intro id hid
          simp only at hid
          split at hid
          · exact ⟨taker, hmem, Option.some.inj hid⟩
          · cases hid
        · intro id hid
          exact ⟨maker, hmaker, Option.some.inj hid⟩
  · obtain ⟨makers, hmakers, he⟩ := Option.map_eq_some_iff.1 h
    subst he
    obtain ⟨maker, hm, rfl⟩ := List.mem_map.1 ht
    have hmaker := mem_ordersFrom hmakers hm
    refine ⟨rfl, rfl, ⟨maker, hmaker, rfl⟩, ?_, ?_⟩
    · intro id hid
      cases hid
    · intro id hid
      exact ⟨maker, hmaker, Option.some.inj hid⟩

theorem PendingSummary.calls_madeOf {get : Lookup Qp Qo} {p : PendingSummary} {calls : List Call}
    (h : p.calls get = some calls) {call : Call} (hc : call ∈ calls) :
    call.action.MadeOf p.tradeSummary p.orders := by
  unfold PendingSummary.calls at h
  simp only at h
  split at h
  · next mbo trades hm ht =>
    cases h
    cases List.mem_append.1 hc with
    | inl hc =>
      obtain ⟨i, security, updates, -, hu, rfl⟩ := mem_forSecurities hm hc
      intro u hmem
      obtain ⟨e, -, -, n, here, hhere, hmem⟩ := mem_collect hu hmem
      exact mem_mboUpdates hhere hmem
    | inr hc =>
      obtain ⟨i, security, items, -, hi, rfl⟩ := mem_forSecurities ht hc
      intro trade hmem
      obtain ⟨e, he, -, n, here, hhere, hmem⟩ := mem_collect hi hmem
      exact ⟨e, he, mem_trades hhere hmem⟩
  · cases h

theorem Action.MadeOf.mono {entries entries' : List SummaryEntry} {orders orders' : List (Nat × Int)}
    (he : ∀ e ∈ entries, e ∈ entries') (ho : ∀ o ∈ orders, o ∈ orders') {a : Action}
    (h : a.MadeOf entries orders) : a.MadeOf entries' orders' := by
  have hsome : ∀ {q : Nat × Int → Prop}, (∃ o ∈ orders, q o) → ∃ o ∈ orders', q o := by
    rintro q ⟨o, hm, hq⟩
    exact ⟨o, ho o hm, hq⟩
  cases a with
  | tradeSummary trades =>
    intro trade ht
    obtain ⟨e, hm, hof⟩ := h trade ht
    exact ⟨e, he e hm, ⟨hof.side, hof.tradeId, hsome hof.quantity,
      fun id hid => hsome (hof.taker id hid), fun id hid => hsome (hof.maker id hid)⟩⟩
  | dispatchMarketByOrder updates b =>
    intro u hu
    exact hsome (h u hu)
  | _ => trivial

/-- All calls of a trade summary are made of the summary that the message completes. -/
theorem dispatchTradeSummary_madeOf (get : Lookup Qp Qo) (cache : Cache) (pending : PendingSummary)
    (value : TradeSummary) {call : Call}
    (hc : call ∈ (dispatchTradeSummary get cache pending value).calls) :
    call.action.MadeOf (pending.assemble value).tradeSummary (pending.assemble value).orders := by
  have hreports : ∀ call ∈ reportCalls get value.noMDEntries,
      call.action.MadeOf (pending.assemble value).tradeSummary (pending.assemble value).orders := by
    intro call hr
    obtain ⟨item, -, hr⟩ := List.mem_flatMap.1 hr
    split at hr
    · rw [List.mem_singleton.1 hr]
      trivial
    · cases hr
  simp only [dispatchTradeSummary] at hc
  split at hc
  · exact hreports call hc
  · split at hc
    · next calls hcalls =>
      cases List.mem_append.1 hc with
      | inl hc => exact hreports call hc
      | inr hc => exact PendingSummary.calls_madeOf hcalls hc
    · exact hreports call hc

/-- The calls of the handler to which a delivery goes. -/
def Delivery.calls (options : Options) (f : Feeds Qp Qo) : Delivery → List Call
  | .incremental channelId _ _ message => (react options f.shared.securityDefinitions
      (f.caches channelId) f.shared.pending message).calls
  | _ => []

/-- The partial events hold nothing but what these deliveries brought. -/
structure Feeds.Since (f : Feeds Qp Qo) (channelId : Nat) (deliveries : List Delivery) : Prop where
  pending : f.shared.pending = (summariesOf deliveries).foldl PendingSummary.next {}
  leftover : (f.caches channelId).orders = []
  orders47 : ∀ o ∈ (f.caches channelId).orders47, o.MadeOf Qp Qo (entries47 channelId deliveries)
  securityIds47 : ∀ i ∈ (f.caches channelId).securityIds47,
    ∃ item ∈ entries47 channelId deliveries, item.securityID = i

/-- What the next delivery leads to is made of these deliveries and of itself: a trade summary
of the trade summaries, an event of template 47 of the entries of its channel, and every other
message of the channel of nothing else. -/
structure Feeds.UpdatesSince (options : Options) (f : Feeds Qp Qo) (channelId : Nat)
    (deliveries : List Delivery) (d : Delivery) : Prop where
  summaries : d.summary.isSome → ∀ call ∈ d.calls options f,
    call.action.MadeOf (entriesIn (summariesOf (deliveries ++ [d])))
      (ordersIn (summariesOf (deliveries ++ [d])))
  events : ∀ streamId frame value, d = .incremental channelId streamId frame (.orderBook47 value) →
    ∀ call ∈ d.calls options f, ∃ orders : List Order47,
      call.action = .dispatchOrderBook47 (orders.map Order47.mboUpdate) ∧
        ∀ o ∈ orders, o.MadeOf Qp Qo (entries47 channelId (deliveries ++ [d]))
  others : ∀ streamId frame message, d = .incremental channelId streamId frame message →
    tradeSummaryOf message = none → (∀ value, message ≠ .orderBook47 value) →
    d.calls options f = (react options f.shared.securityDefinitions {} {} message).calls

theorem Order47.MadeOf.mono {items items' : List OrderBook47.Entry} {o : Order47}
    (h : o.MadeOf Qp Qo items) (hsub : ∀ item ∈ items, item ∈ items') : o.MadeOf Qp Qo items' := by
  obtain ⟨item, hi, hs⟩ := h
  exact ⟨item, hsub item hi, hs⟩

theorem mem_visited47 {items : List OrderBook47.Entry} {item : OrderBook47.Entry}
    (h : item ∈ visited47 items) : item ∈ items :=
  (List.dropWhile_sublist _).mem h

/-- The event of a channel with one more message is made of the old entries and the new ones. -/
theorem extend47_madeOf (get : Lookup Qp Qo) {cache : Cache} {items : List OrderBook47.Entry}
    (horders : ∀ o ∈ cache.orders47, o.MadeOf Qp Qo items)
    (hids : ∀ i ∈ cache.securityIds47, ∃ item ∈ items, item.securityID = i) (value : OrderBook47) :
    (∀ o ∈ (cache.extend47 get value).orders47, o.MadeOf Qp Qo (items ++ value.noMDEntries)) ∧
      ∀ i ∈ (cache.extend47 get value).securityIds47,
        ∃ item ∈ items ++ value.noMDEntries, item.securityID = i := by
  obtain ⟨h1, h2, -⟩ := OrderBook47Loop.run_spec get value.noMDEntries cache.orders47
    cache.securityIds47
  constructor
  · intro o ho
    rw [Cache.extend47, h1, List.mem_append] at ho
    cases ho with
    | inl ho => exact (horders o ho).mono fun item hi => List.mem_append_left _ hi
    | inr ho =>
      obtain ⟨item, hi, ho⟩ := List.mem_flatMap.1 ho
      obtain ⟨-, s, -, ho⟩ := mem_orders47Of ho
      exact ⟨item, List.mem_append_right _ (mem_visited47 hi), s, ho⟩
  · intro i hi
    rw [Cache.extend47, h2] at hi
    obtain hi | ⟨⟨item, hm, hid⟩, -⟩ := hi
    · obtain ⟨item, hm, hid⟩ := hids i hi
      exact ⟨item, List.mem_append_left _ hm, hid⟩
    · exact ⟨item, List.mem_append_right _ (mem_visited47 hm), hid⟩

theorem entries47_append (channelId : Nat) (xs ys : List Delivery) :
    entries47 channelId (xs ++ ys) = entries47 channelId xs ++ entries47 channelId ys :=
  List.flatMap_append

theorem Feeds.Since.grow {f : Feeds Qp Qo} {channelId : Nat} {deliveries : List Delivery}
    (h : f.Since channelId deliveries) (more : List OrderBook47.Entry) :
    (∀ o ∈ (f.caches channelId).orders47,
        o.MadeOf Qp Qo (entries47 channelId deliveries ++ more)) ∧
      ∀ i ∈ (f.caches channelId).securityIds47,
        ∃ item ∈ entries47 channelId deliveries ++ more, item.securityID = i := by
  refine ⟨fun o ho => (h.orders47 o ho).mono fun item hi => List.mem_append_left _ hi, ?_⟩
  intro i hi
  obtain ⟨item, hm, hid⟩ := h.securityIds47 i hi
  exact ⟨item, List.mem_append_left _ hm, hid⟩

/-- The cache of the channel after one of its messages. -/
theorem Feeds.Since.react {f : Feeds Qp Qo} {channelId : Nat} {deliveries : List Delivery}
    (h : f.Since channelId deliveries) (options : Options) (streamId : Nat) (frame : Frame)
    (message : Message) :
    let d := Delivery.incremental channelId streamId frame message
    let r := react options f.shared.securityDefinitions (f.caches channelId) f.shared.pending message
    (∀ o ∈ r.cache.orders47, o.MadeOf Qp Qo (entries47 channelId (deliveries ++ [d]))) ∧
      ∀ i ∈ r.cache.securityIds47,
        ∃ item ∈ entries47 channelId (deliveries ++ [d]), item.securityID = i := by
  intro d r
  rw [entries47_append]
  by_cases h47 : ∃ value, message = .orderBook47 value
  · obtain ⟨value, rfl⟩ := h47
    have hentries : entries47 channelId [d] = value.noMDEntries := by
      simp [entries47, d, Delivery.entries47]
    rw [hentries]
    cases he : options.enableMarketByOrder with
    | false =>
      have hr : r.cache = f.caches channelId := by
        simp only [r, MarketData.react, orderBook47, he, Bool.false_eq_true, if_false]
      rw [hr]
      exact h.grow _
    | true =>
      have hext := extend47_madeOf f.shared.securityDefinitions.getSecurity h.orders47
        h.securityIds47 value
      simp only [r, MarketData.react, orderBook47_eq he _ h.leftover]
      split
      · exact hext
      · constructor
        · intro o ho
          cases ho
        · intro i hi
          cases hi
  · obtain ⟨h1, h2⟩ := react_cache47 options f.shared.securityDefinitions (f.caches channelId)
      f.shared.pending fun value hv => h47 ⟨value, hv⟩
    simp only [r, h1, h2]
    exact h.grow _

theorem Feeds.Since.step {f : Feeds Qp Qo} {channelId : Nat} {deliveries : List Delivery}
    (h : f.Since channelId deliveries) (env : Env Qp Qo)
    (ht : ∀ channelId, (f.caches channelId).Tidy) (d : Delivery) :
    (f.step env d).Since channelId (deliveries ++ [d]) := by
  have hpending : (f.step env d).shared.pending =
      (summariesOf (deliveries ++ [d])).foldl PendingSummary.next {} := by
    rw [step_next, h.pending]
    cases hd : d.summary with
    | none => simp [summariesOf, hd]
    | some value => simp [summariesOf, hd]
  have hkeep : (f.step env d).caches channelId = f.caches channelId →
      (f.step env d).Since channelId (deliveries ++ [d]) := by
    intro hc
    obtain ⟨h1, h2⟩ := h.grow (entries47 channelId [d])
    rw [← hc, ← entries47_append] at h1 h2
    exact ⟨hpending, by rw [hc]; exact h.leftover, h1, h2⟩
  have hleft := (step_tidy env f d ht channelId).orders
  cases d with
  | incremental c streamId frame message =>
    by_cases hc : channelId = c
    · subst hc
      obtain ⟨h1, h2⟩ := h.react env.options streamId frame message
      refine ⟨hpending, hleft, ?_, ?_⟩
      · simp only [Feeds.step, Function.update_self]
        exact h1
      · simp only [Feeds.step, Function.update_self]
        exact h2
    · exact hkeep (by simp only [Feeds.step, Function.update_of_ne hc])
  | sequenceReset c =>
    by_cases hc : channelId = c
    · subst hc
      refine ⟨hpending, hleft, ?_, ?_⟩
      · simp only [Feeds.step, Function.update_self]
        intro o ho
        cases ho
      · simp only [Feeds.step, Function.update_self]
        intro i hi
        cases hi
    · exact hkeep (by simp only [Feeds.step, Function.update_of_ne hc])
  | _ => exact hkeep rfl

theorem Feeds.Since.run {f : Feeds Qp Qo} {channelId : Nat} {deliveries : List Delivery}
    (h : f.Since channelId deliveries) (env : Env Qp Qo)
    (ht : ∀ channelId, (f.caches channelId).Tidy) (after : List Delivery) :
    (Feeds.run env after f).Since channelId (deliveries ++ after) := by
  induction after generalizing f deliveries with
  | nil =>
    rw [List.append_nil]
    exact h
  | cons d after ih =>
    have hstep := ih (h.step env ht d) (step_tidy env f d ht)
    rw [List.append_assoc] at hstep
    exact hstep

theorem Feeds.Since.updates {f : Feeds Qp Qo} {channelId : Nat} {deliveries : List Delivery}
    (h : f.Since channelId deliveries) (options : Options) (d : Delivery) :
    f.UpdatesSince options channelId deliveries d where
  summaries := by
    intro hsome call hc
    cases d with
    | incremental c streamId frame message =>
      obtain ⟨value, hv⟩ := Option.isSome_iff_exists.1 hsome
      have hm : tradeSummaryOf message = some value := hv
      have hall : summariesOf (deliveries ++ [.incremental c streamId frame message]) =
          summariesOf deliveries ++ [value] := by
        simp [summariesOf, Delivery.summary, hm]
      simp only [Delivery.calls, react_tradeSummary options _ _ _ hm] at hc
      have hmade := dispatchTradeSummary_madeOf _ _ _ _ hc
      have hamong := (foldl_next_among (summariesOf deliveries)).assemble value
      rw [← h.pending, ← hall] at hamong
      exact hmade.mono hamong.entries hamong.orders
    | _ => cases hc
  events := by
    intro streamId frame value hd call hc
    subst hd
    have hentries : entries47 channelId
        [.incremental channelId streamId frame (.orderBook47 value)] = value.noMDEntries := by
      simp [entries47, Delivery.entries47]
    rw [entries47_append, hentries]
    cases he : options.enableMarketByOrder with
    | false =>
      simp only [Delivery.calls, MarketData.react, orderBook47, he, Bool.false_eq_true,
        if_false] at hc
      cases hc
    | true =>
      simp only [Delivery.calls, MarketData.react, orderBook47_eq he _ h.leftover] at hc
      split at hc
      · cases hc
      · obtain ⟨i, -, rfl⟩ := List.mem_map.1 hc
        refine ⟨_, rfl, ?_⟩
        intro o ho
        exact (extend47_madeOf _ h.orders47 h.securityIds47 value).1 o (List.mem_of_mem_filter ho)
  others := by
    intro streamId frame message hd hm h47
    subst hd
    simp only [Delivery.calls]
    rw [react_pending options _ _ _ hm]
    cases message with
    | orderBook47 value => exact absurd rfl (h47 value)
    | tradeSummary48 | tradeSummaryLongQty65 => cases hm
    | book46 value =>
      simp only [MarketData.react, book46, h.leftover]
      split
      · rfl
      · rfl
    | _ => rfl

/-- No trade summary is half assembled when a channel is reset. -/
def NothingPending (f : Feeds Qp Qo) : Delivery → Prop
  | .sequenceReset _ => f.shared.pending = {}
  | _ => True

instance (f : Feeds Qp Qo) (d : Delivery) : Decidable (NothingPending f d) :=
  match d with
  | .sequenceReset _ => inferInstanceAs (Decidable (f.shared.pending = {}))
  | .incremental _ _ _ _ | .instrumentDefinition _ _ _ | .mbpRecovery _ _ _ _
  | .mbofdRecovery _ _ _ => .isTrue trivial

section Runs
variable {β : Type}

/-- A reset with nothing pending: the partial events are as they were at the start, and all that
is published from then on is made of what came after it. -/
theorem since_reset (env : Env Qp Qo) {f : Feeds Qp Qo} (ht : ∀ c, (f.caches c).Tidy)
    (channelId : Nat) (hp : f.shared.pending = {}) (after : List Delivery) :
    (f.step env (.sequenceReset channelId)).caches channelId = {} ∧
      (Feeds.run env after (f.step env (.sequenceReset channelId))).Since channelId after := by
  have hcache : (f.step env (.sequenceReset channelId)).caches channelId = {} := by
    simp only [Feeds.step, Function.update_self]
  have hsince : (f.step env (.sequenceReset channelId)).Since channelId [] := by
    refine ⟨hp, by rw [hcache], ?_, ?_⟩
    · intro o ho
      rw [hcache] at ho
      cases ho
    · intro i hi
      rw [hcache] at hi
      cases hi
  have hrun := hsince.run env (step_tidy env f _ ht) after
  rw [List.nil_append] at hrun
  exact ⟨hcache, hrun⟩

/-- At every reset of a run: the partial events are as they were at the start, and what is
published after it is made of what came after it. This is so exactly when no trade summary is
half assembled at a reset. -/
theorem reset_discards_partial_events_iff (S : Setup β Qp Qo) (channelIds : List Nat) (b : β)
    (items : List SecDef) (packets : List Packet) :
    let start := (S.start channelIds b items).feeds
    let deliveries := S.runDeliveries packets (S.start channelIds b items)
    (∀ before channelId after rest,
      deliveries = before ++ .sequenceReset channelId :: (after ++ rest) →
      let reset := Feeds.run S.env (before ++ [.sequenceReset channelId]) start
      let f := Feeds.run S.env after reset
      reset.caches channelId = {} ∧ reset.shared.pending = {} ∧ f.Since channelId after ∧
        ∀ d, f.UpdatesSince S.env.options channelId after d) ↔
      Along (Feeds.step S.env) NothingPending deliveries start := by
  intro start deliveries
  have hreset : ∀ before channelId, Feeds.run S.env (before ++ [.sequenceReset channelId]) start =
      (Feeds.run S.env before start).step S.env (.sequenceReset channelId) := by
    intro before channelId
    exact Feeds.run_append S.env before _ start
  rw [along_iff]
  constructor
  · intro h before d rest hd
    cases d with
    | sequenceReset channelId =>
      have hpending := (h before channelId [] rest hd).2.1
      rw [hreset] at hpending
      exact hpending
    | _ => trivial
  · intro h before channelId after rest hd
    have hpending : (Feeds.run S.env before start).shared.pending = {} := h before _ _ hd
    have htidy := run_tidy S.env before start (start_tidy S channelIds b items)
    obtain ⟨hcache, hsince⟩ := since_reset S.env htidy channelId hpending after
    simp only [hreset]
    exact ⟨hcache, hpending, hsince, hsince.updates S.env.options⟩

end Runs

/-- Packet 1 brings a trade with the first of its two orders, packet 3 waits for packet 2 in the
only slot, packet 4 finds the buffer full. After the reset packet 5 brings the second order: the
trade published has its taker from before the reset and its maker from after it. -/
theorem trade_summary_survives_reset :
    let S := { summarySetup with buffer := KeyedBuffer.slots (List UInt8) 1 }
    let start := S.start [310] [] [SecDef.sample 7 "ESZ5"]
    let packets := [incrementalPacket 310 1 (tradeSummaryBody firstFragment),
      incrementalPacket 310 3 otherLimits, incrementalPacket 310 4 otherLimits,
      incrementalPacket 310 5 (tradeSummaryBody secondFragment)]
    let before := [Delivery.incremental 310 1 ⟨1, 0⟩ (.tradeSummary48 firstFragment)]
    let after := [Delivery.incremental 310 1 ⟨5, 0⟩ (.tradeSummary48 secondFragment)]
    S.runDeliveries packets start = before ++ .sequenceReset 310 :: after ∧
      (Feeds.run S.env (before ++ [.sequenceReset 310]) start.feeds).shared.pending ≠ {} ∧
      (7, Published.tradeSummary ⟨1, "CME", "ESZ5", 100, 5, 0⟩
          [⟨.buy, some 5000, 5, 1, some 11, some 12⟩]) ∈
        publishedFor (fun _ => true) (S.run packets start).shared.trace ∧
      ordersIn (summariesOf after) = [(12, 5)] := by
  decide +kernel

end RoqCme.MarketData
