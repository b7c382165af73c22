import RoqCme.MarketData.OrderEvents
import RoqCme.MarketData.Reports

/-! The order entries of template 46. Each refers to a price entry of the message by its position,
counted from one, and has the security, the side and the price from there. -/
namespace RoqCme.MarketData
open RoqCme.Mdp RoqCme.Tools
variable {Qp Qo : Type}

/-- The price entry that an order entry refers to. -/
def referencedEntry (value : Book46) (item : Book46.OrderEntry) : Option Book46.Entry :=
  if getInt item.referenceID = 0 then none else value.noMDEntries[getInt item.referenceID - 1]?

/-- The order entries with a price entry. -/
def referenced (value : Book46) : List (Book46.Entry × Book46.OrderEntry) :=
  value.noOrderIDEntries.filterMap fun item =>
    (referencedEntry value item).map fun entry => (entry, item)

/-- Those that the loop looks at. It starts out as if it had just seen security zero. -/
def visited46 (value : Book46) : List (Book46.Entry × Book46.OrderEntry) :=
  (referenced value).dropWhile fun p => p.1.securityID = 0

/-- What an order entry leads to if the security of its price entry is known. -/
def orderUpdate46 (get : Lookup Qp Qo) (p : Book46.Entry × Book46.OrderEntry) :
    Option (Int × MBOUpdate) :=
  (get p.1.securityID).map fun security =>
    (p.1.securityID, mboUpdate46 p.2 security p.1.mDEntryType.map (priceNull9 p.1.mDEntryPx))

/-- The orders that a call submits. An update that clears a price level has no order id. -/
def Call.orderUpdates (c : Call) : List (Int × MBOUpdate) :=
  match c.action with
  | .dispatchMarketByOrder orders _ =>
    (orders.filter fun o => o.orderId.isSome).map fun o => (c.securityId, o)
  | _ => []

/-- The call submits at least one order, and nothing else. -/
def Call.SubmitsOrders (isSnapshot : Bool) (c : Call) : Prop :=
  ∃ orders, c.action = .dispatchMarketByOrder orders isSnapshot ∧ orders ≠ [] ∧
    ∀ o ∈ orders, o.orderId.isSome = true

/-- What is remembered of a price entry. -/
def mdEntryOf (item : Book46.Entry) : MdEntry :=
  { securityId := item.securityID, side := item.mDEntryType.map, price := priceNull9 item.mDEntryPx
    action := item.mDUpdateAction.map }

namespace Order46Loop

/-- One round for an order entry with its price entry. -/
def place (get : Lookup Qp Qo) (b : Bool) (s : Order46Loop Qp Qo) (p : MdEntry × Book46.OrderEntry) :
    Order46Loop Qp Qo :=
  (s.enter get b p.1.securityId).collect p.2 p.1

/-- The loop is over the order entries with a price entry. -/
theorem foldl_process (get : Lookup Qp Qo) (b : Bool) (value : Book46) (s : Order46Loop Qp Qo) :
    value.noOrderIDEntries.foldl (process get (value.noMDEntries.map mdEntryOf) b) s =
      ((referenced value).map fun p => (mdEntryOf p.1, p.2)).foldl (place get b) s := by
  rw [referenced, List.map_filterMap, List.foldl_filterMap]
  congr 1
  funext s item
  simp only [process, referencedEntry, List.getElem?_map]
  by_cases h : getInt item.referenceID = 0
  · rw [if_pos h, if_pos h]
    rfl
  · rw [if_neg h, if_neg h]
    cases value.noMDEntries[getInt item.referenceID - 1]? with
    | none => rfl
    | some entry => rfl

/-- What was submitted and what is kept for the current security, in order. -/
structure Submits (b : Bool) (s : Order46Loop Qp Qo) (done : List (Int × MBOUpdate)) : Prop where
  own : ∀ found, s.security = some found → found.securityId = s.securityId
  named : ∀ o ∈ s.orders, o.orderId.isSome = true
  flushed : s.Flushed
  calls : ∀ c ∈ s.calls, c.SubmitsOrders b
  done : s.calls.flatMap Call.orderUpdates ++ s.orders.map (fun o => (s.securityId, o)) = done

section Submits
variable {get : Lookup Qp Qo} {b : Bool} {s : Order46Loop Qp Qo} {done : List (Int × MBOUpdate)}

theorem Submits.dispatch (h : s.Submits b done) :
    (s.dispatch b).orders = [] ∧ (∀ c ∈ (s.dispatch b).calls, c.SubmitsOrders b) ∧
      (s.dispatch b).calls.flatMap Call.orderUpdates = done := by
  refine ⟨dispatch_orders h.flushed b, ?_⟩
  rw [← h.done, Order46Loop.dispatch]
  cases hs : s.security with
  | none =>
    rw [h.flushed hs, List.map_nil, List.append_nil]
    exact ⟨h.calls, rfl⟩
  | some found =>
    simp only
    split
    · next hnil =>
      rw [hnil, List.map_nil, List.append_nil]
      exact ⟨h.calls, rfl⟩
    · next hne =>
      have hall : s.orders.filter (fun o => o.orderId.isSome) = s.orders :=
        List.filter_eq_self.2 h.named
      constructor
      · rw [List.forall_mem_append, List.forall_mem_singleton]
        exact ⟨h.calls, s.orders, rfl, hne, h.named⟩
      · rw [List.flatMap_append, List.flatMap_singleton]
        simp only [Call.orderUpdates, hall, h.own found hs]

theorem Submits.enter (h : s.Submits b done) {securityId : Int}
    (hc : securityId ≠ s.securityId ∨ s.security = get.find s.securityId) :
    (s.enter get b securityId).Submits b done ∧
      (s.enter get b securityId).securityId = securityId ∧
      (s.enter get b securityId).security = get.find securityId := by
  rw [Order46Loop.enter]
  by_cases he : securityId = s.securityId
  · rw [if_neg (not_not_intro he)]
    have hfind := hc.resolve_left (not_not_intro he)
    exact ⟨h, he.symm, by rw [he]; exact hfind⟩
  · obtain ⟨horders, hcalls, hdone⟩ := h.dispatch
    rw [if_pos he]
    refine ⟨⟨?_, ?_, ?_, hcalls, ?_⟩, rfl, rfl⟩
    · intro found hf
      exact (find_self hf).1
    · intro o ho
      rw [horders] at ho
      cases ho
    · intro _
      exact horders
    · simp only [horders, hdone, List.map_nil, List.append_nil]

theorem Submits.place (h : s.Submits b done) (p : Book46.Entry × Book46.OrderEntry)
    (hc : p.1.securityID ≠ s.securityId ∨ s.security = get.find s.securityId) :
    (s.place get b (mdEntryOf p.1, p.2)).Submits b (done ++ (orderUpdate46 get p).toList) ∧
      (s.place get b (mdEntryOf p.1, p.2)).security =
        get.find (s.place get b (mdEntryOf p.1, p.2)).securityId := by
  obtain ⟨ht, hid, hfind⟩ := h.enter hc
  have hplace : s.place get b (mdEntryOf p.1, p.2) =
      (s.enter get b p.1.securityID).collect p.2 (mdEntryOf p.1) := rfl
  rw [hplace]
  generalize s.enter get b p.1.securityID = t at ht hid hfind
  cases hget : get p.1.securityID with
  | none =>
    have hs : t.security = none := by rw [hfind, Lookup.find, hget, Option.map_none]
    have hcollect : t.collect p.2 (mdEntryOf p.1) = t := by rw [collect, hs]
    rw [hcollect, orderUpdate46, hget, hid, Option.map_none, Option.toList_none, List.append_nil]
    exact ⟨ht, hfind⟩
  | some security =>
    have hs : t.security = some ⟨p.1.securityID, security⟩ := by
      rw [hfind, Lookup.find, hget, Option.map_some]
    have hcollect : t.collect p.2 (mdEntryOf p.1) =
        { t with orders := t.orders ++
            [mboUpdate46 p.2 security p.1.mDEntryType.map (priceNull9 p.1.mDEntryPx)] } := by
      rw [collect, hs]
      rfl
    rw [hcollect, orderUpdate46, hget]
    refine ⟨⟨ht.own, ?_, ?_, ht.calls, ?_⟩, by rw [hid]; exact hfind⟩
    · rw [List.forall_mem_append, List.forall_mem_singleton]
      exact ⟨ht.named, rfl⟩
    · intro hnone
      rw [hs] at hnone
      cases hnone
    · rw [← ht.done, List.map_append, hid, ← List.append_assoc]
      rfl

theorem filterMap_orderUpdate46_cons (get : Lookup Qp Qo) (p : Book46.Entry × Book46.OrderEntry)
    (ps : List (Book46.Entry × Book46.OrderEntry)) :
    (p :: ps).filterMap (orderUpdate46 get) =
      (orderUpdate46 get p).toList ++ ps.filterMap (orderUpdate46 get) := by
  simp only [List.filterMap_eq_flatMap_toList, List.flatMap_cons]

/-- From a security that was looked up, every order entry has its place. -/
theorem Submits.foldl (ps : List (Book46.Entry × Book46.OrderEntry)) (h : s.Submits b done)
    (hc : s.security = get.find s.securityId) :
    ((ps.map fun p => (mdEntryOf p.1, p.2)).foldl (Order46Loop.place get b) s).Submits b
      (done ++ ps.filterMap (orderUpdate46 get)) := by
  induction ps generalizing s done with
  | nil =>
    rw [List.filterMap_nil, List.append_nil]
    exact h
  | cons p ps ih =>
    obtain ⟨hp, hcurrent⟩ := h.place p (Or.inr hc)
    rw [filterMap_orderUpdate46_cons, ← List.append_assoc, List.map_cons, List.foldl_cons]
    exact ih hp hcurrent

end Submits

theorem submits_start (b : Bool) : ({ orders := [] } : Order46Loop Qp Qo).Submits b [] where
  own := fun found h => by cases h
  named := fun o ho => by cases ho
  flushed := fun _ => rfl
  calls := fun c hc => by cases hc
  done := rfl

/-- The calls of the loop submit the order entries one by one, with one flag. -/
theorem run_submits (get : Lookup Qp Qo) (b : Bool) (value : Book46) :
    let s := run get (value.noMDEntries.map mdEntryOf) b [] value.noOrderIDEntries
    s.orders = [] ∧ (∀ c ∈ s.calls, c.SubmitsOrders b) ∧
      s.calls.flatMap Call.orderUpdates = (visited46 value).filterMap (orderUpdate46 get) := by
  intro s
  have hfold : ∀ ps : List (Book46.Entry × Book46.OrderEntry),
      ((ps.map fun p => (mdEntryOf p.1, p.2)).foldl (place get b) { orders := [] }).Submits b
        ((ps.dropWhile fun p => p.1.securityID = 0).filterMap (orderUpdate46 get)) := by
    intro ps
    induction ps with
    | nil => exact submits_start b
    | cons p ps ih =>
      rw [List.map_cons, List.foldl_cons]
      by_cases h0 : p.1.securityID = 0
      · have hsame : place get b { orders := [] } (mdEntryOf p.1, p.2) = { orders := [] } := by
          simp [place, enter, collect, mdEntryOf, h0]
        rw [hsame, List.dropWhile_cons_of_pos (by simpa using h0)]
        exact ih
      · obtain ⟨hp, hcurrent⟩ := (submits_start b).place p (Or.inl h0)
        rw [List.dropWhile_cons_of_neg (by simpa using h0), filterMap_orderUpdate46_cons]
        exact hp.foldl ps hcurrent
  have hrun : s = (((referenced value).map fun p => (mdEntryOf p.1, p.2)).foldl (place get b)
      { orders := [] }).dispatch b := by
    rw [← foldl_process]
    rfl
  rw [hrun]
  exact (hfold (referenced value)).dispatch

end Order46Loop

/-- The call submits no order; if it clears price levels, then not as a snapshot. -/
def Call.ClearsOnly (c : Call) : Prop :=
  ∀ orders isSnapshot, c.action = .dispatchMarketByOrder orders isSnapshot →
    isSnapshot = false ∧ ∀ o ∈ orders, o.orderId = none

theorem Call.ClearsOnly.orderUpdates {c : Call} (h : c.ClearsOnly) : c.orderUpdates = [] := by
  unfold Call.orderUpdates
  split
  · next orders isSnapshot hc =>
    have hnone := (h orders isSnapshot hc).2
    rw [List.map_eq_nil_iff, List.filter_eq_nil_iff]
    intro o ho
    rw [hnone o ho]
    exact Bool.false_ne_true
  · rfl

namespace Book46Loop

/-- The price entries lead to no orders. -/
theorem run_clearsOnly (options : Options) (get : Lookup Qp Qo) (items : List Book46.Entry) :
    ∀ c ∈ (run options get items).calls, c.ClearsOnly := by
  suffices hrun : (∀ o ∈ (run options get items).orders, o.orderId = none) ∧
      ∀ c ∈ (run options get items).calls, c.ClearsOnly from hrun.2
  refine run_orders_calls
    (I := fun orders calls => (∀ o ∈ orders, o.orderId = none) ∧ ∀ c ∈ calls, c.ClearsOnly)
    ?_ ?_ ?_ ⟨List.forall_mem_nil _, List.forall_mem_nil _⟩ get items
  · rintro orders calls i action ha ⟨horders, hcalls⟩
    rw [List.forall_mem_append, List.forall_mem_singleton]
    refine ⟨horders, hcalls, ?_⟩
    rintro orders isSnapshot rfl
    exact absurd rfl ha
  · rintro orders calls i - ⟨horders, hcalls⟩
    rw [List.forall_mem_append, List.forall_mem_singleton]
    refine ⟨List.forall_mem_nil _, hcalls, ?_⟩
    rintro _ _ ⟨⟩
    exact ⟨rfl, horders⟩
  · rintro orders calls item security ⟨horders, hcalls⟩
    rw [List.forall_mem_append]
    refine ⟨⟨horders, ?_⟩, hcalls⟩
    intro o ho
    simp only [clearPriceLevel] at ho
    split at ho
    · rw [List.mem_singleton.1 ho]
    · cases ho

/-- What the second loop gets from the first: the price entries and one flag. -/
structure Remembers (s : Book46Loop Qp Qo) (items : List Book46.Entry) : Prop where
  mdEntries : s.mdEntries = items.map mdEntryOf
  workaround : s.isSnapshotWorkaround = items.any fun item => item.rptSeq = 1

theorem dispatch_memory (s : Book46Loop Qp Qo) : s.dispatch.mdEntries = s.mdEntries ∧
    s.dispatch.isSnapshotWorkaround = s.isSnapshotWorkaround := by
  unfold dispatch
  split
  · exact ⟨rfl, rfl⟩
  · unfold dispatchTopOfBook dispatchPrices dispatchOrders
    constructor
    · split_ifs <;> rfl
    · split_ifs <;> rfl

theorem enter_memory (get : Lookup Qp Qo) (s : Book46Loop Qp Qo) (securityId : Int) :
    (s.enter get securityId).securityId = securityId ∧
      (s.enter get securityId).mdEntries = s.mdEntries ∧
      (s.enter get securityId).isSnapshotWorkaround = s.isSnapshotWorkaround := by
  unfold enter
  split
  · exact ⟨rfl, s.dispatch_memory.1, s.dispatch_memory.2⟩
  · next h => exact ⟨(not_not.1 h).symm, rfl, rfl⟩

theorem flag_memory (s : Book46Loop Qp Qo) (item : Book46.Entry) :
    (s.flag item).mdEntries = s.mdEntries ∧
      (s.flag item).isSnapshotWorkaround = (s.isSnapshotWorkaround || decide (item.rptSeq = 1)) := by
  unfold flag
  split
  · next h => exact ⟨rfl, by simp [h]⟩
  · next h => exact ⟨rfl, by simp [h]⟩

theorem report_memory (s : Book46Loop Qp Qo) (item : Book46.Entry) :
    (s.report item).mdEntries = s.mdEntries ∧
      (s.report item).isSnapshotWorkaround = s.isSnapshotWorkaround := by
  unfold report
  split
  · exact ⟨rfl, rfl⟩
  · exact ⟨rfl, rfl⟩

theorem collect_memory (options : Options) (s : Book46Loop Qp Qo) (item : Book46.Entry) :
    (s.collect options item).mdEntries = s.mdEntries ∧
      (s.collect options item).isSnapshotWorkaround = s.isSnapshotWorkaround := by
  unfold collect
  split
  · unfold emplaceBack
    cases item.mDEntryType with
    | bid | offer | impliedBid | impliedOffer | bookReset | marketBestOffer | marketBestBid
    | null => exact ⟨rfl, rfl⟩
  · exact ⟨rfl, rfl⟩

theorem Remembers.process {options : Options} (he : options.enableMarketByOrder = true)
    (get : Lookup Qp Qo) {s : Book46Loop Qp Qo} {items : List Book46.Entry} (h : s.Remembers items)
    (item : Book46.Entry) : (s.process options get item).Remembers (items ++ [item]) := by
  obtain ⟨hid, hm1, hw1⟩ := s.enter_memory get item.securityID
  obtain ⟨hm2, hw2⟩ := (s.enter get item.securityID).flag_memory item
  obtain ⟨hm3, hw3⟩ := ((s.enter get item.securityID).flag item).report_memory item
  have hthere : (((s.enter get item.securityID).flag item).report item).securityId =
      item.securityID := by
    rw [(report_same _ item).1, (flag_same _ item).1, hid]
  have hremember : (((s.enter get item.securityID).flag item).report item).remember options item =
      { ((s.enter get item.securityID).flag item).report item with
        mdEntries := (((s.enter get item.securityID).flag item).report item).mdEntries ++
          [mdEntryOf item] } := by
    simp only [remember, he, if_true, hthere]
    rfl
  obtain ⟨hm5, hw5⟩ := collect_memory options
    ((((s.enter get item.securityID).flag item).report item).remember options item) item
  constructor
  · rw [Book46Loop.process, hm5, hremember, List.map_append, ← h.mdEntries]
    simp only [hm3, hm2, hm1, List.map_cons, List.map_nil]
  · rw [Book46Loop.process, hw5, hremember, List.any_append, ← h.workaround]
    simp only [hw3, hw2, hw1, List.any_cons, List.any_nil, Bool.or_false]

/-- Every price entry is remembered, whatever its security. -/
theorem run_remembers {options : Options} (he : options.enableMarketByOrder = true)
    (get : Lookup Qp Qo) (items : List Book46.Entry) : (run options get items).Remembers items := by
  have hfold : ∀ (items' items : List Book46.Entry) (s : Book46Loop Qp Qo), s.Remembers items' →
      (items.foldl (process options get) s).Remembers (items' ++ items) := by
    intro items' items
    induction items generalizing items' with
    | nil =>
      intro s hs
      rw [List.append_nil]
      exact hs
    | cons item items ih =>
      intro s hs
      have hstep := ih (items' ++ [item]) _ (hs.process he get item)
      rw [List.append_assoc] at hstep
      exact hstep
  have hall := hfold [] items {} ⟨rfl, rfl⟩
  obtain ⟨hm, hw⟩ := (items.foldl (process options get) {}).dispatch_memory
  exact ⟨hm.trans hall.mdEntries, hw.trans hall.workaround⟩

end Book46Loop

/-- A message is flagged as a whole. -/
def flagged (value : Book46) : Bool := value.noMDEntries.any fun item => item.rptSeq = 1

/-- The two loops, one after the other. -/
theorem book46_eq {options : Options} (he : options.enableMarketByOrder = true)
    (get : Lookup Qp Qo) (cache : Cache) (pending : PendingSummary) (value : Book46) :
    book46 options get cache pending value =
      let orders := Order46Loop.run get (value.noMDEntries.map mdEntryOf) (flagged value)
        cache.orders value.noOrderIDEntries
      { cache := { cache with orders := orders.orders }, pending := pending
        exchangeTimeUtc := value.transactTime
        calls := (Book46Loop.run options get value.noMDEntries).calls ++ orders.calls } := by
  obtain ⟨hm, hw⟩ := Book46Loop.run_remembers he get value.noMDEntries
  simp only [book46, he, if_true, hm, hw]
  rfl

/-- The orders that a message submits are those of its order entries with a known price entry. -/
theorem book46_orderUpdates {options : Options} (he : options.enableMarketByOrder = true)
    (get : Lookup Qp Qo) {cache : Cache} (hc : cache.orders = []) (pending : PendingSummary)
    (value : Book46) :
    (book46 options get cache pending value).calls.flatMap Call.orderUpdates =
      (visited46 value).filterMap (orderUpdate46 get) := by
  obtain ⟨-, -, horders⟩ := Order46Loop.run_submits get (flagged value) value
  have hprices : (Book46Loop.run options get value.noMDEntries).calls.flatMap Call.orderUpdates =
      [] := by
    rw [List.flatMap_eq_nil_iff]
    intro c hc
    exact (Book46Loop.run_clearsOnly options get value.noMDEntries c hc).orderUpdates
  simp only [book46_eq he, hc, List.flatMap_append, hprices, List.nil_append, horders]

theorem mem_referenced {value : Book46} {p : Book46.Entry × Book46.OrderEntry}
    (h : p ∈ referenced value) : p.1 ∈ value.noMDEntries := by
  obtain ⟨item, -, hp⟩ := List.mem_filterMap.1 h
  obtain ⟨entry, hentry, rfl⟩ := Option.map_eq_some_iff.1 hp
  rw [referencedEntry] at hentry
  split at hentry
  · cases hentry
  · exact List.mem_of_getElem? hentry

theorem visited46_of_ne_zero {value : Book46} (h0 : ∀ item ∈ value.noMDEntries, item.securityID ≠ 0) :
    visited46 value = referenced value := by
  rw [visited46]
  cases hps : referenced value with
  | nil => rfl
  | cons p ps =>
    have hp : p ∈ referenced value := by
      rw [hps]
      exact List.mem_cons_self
    exact List.dropWhile_cons_of_neg (by simpa using h0 p.1 (mem_referenced hp))

/-- The message without the order entries that have no price entry. -/
def withoutDropped (value : Book46) : Book46 :=
  { value with
    noOrderIDEntries := value.noOrderIDEntries.filter fun item =>
      (referencedEntry value item).isSome }

theorem referenced_withoutDropped (value : Book46) :
    referenced (withoutDropped value) = referenced value := by
  have hentry : referencedEntry (withoutDropped value) = referencedEntry value := rfl
  rw [referenced, hentry, withoutDropped, List.filterMap_filter]
  apply List.filterMap_congr
  intro item _
  cases referencedEntry value item with
  | none => rfl
  | some entry => rfl

theorem book46_withoutDropped {options : Options} (he : options.enableMarketByOrder = true)
    (get : Lookup Qp Qo) (cache : Cache) (pending : PendingSummary) (value : Book46) :
    book46 options get cache pending (withoutDropped value) =
      book46 options get cache pending value := by
  have hrun : ∀ b, Order46Loop.run get (value.noMDEntries.map mdEntryOf) b cache.orders
      (withoutDropped value).noOrderIDEntries =
      Order46Loop.run get (value.noMDEntries.map mdEntryOf) b cache.orders
        value.noOrderIDEntries := by
    intro b
    have hleft := Order46Loop.foldl_process get b (withoutDropped value)
      { orders := cache.orders }
    rw [referenced_withoutDropped, ← Order46Loop.foldl_process] at hleft
    rw [Order46Loop.run, Order46Loop.run]
    exact congrArg (Order46Loop.dispatch b) hleft
  have hflagged : flagged (withoutDropped value) = flagged value := rfl
  have hentries : (withoutDropped value).noMDEntries = value.noMDEntries := rfl
  have htime : (withoutDropped value).transactTime = value.transactTime := rfl
  simp only [book46_eq he, hflagged, hentries, htime, hrun]

/-- In every run with market by order, a message of template 46 whose entries are of securities other
than 0 submits the order entries that refer to a price entry of a known security, in order and each
under that security with the side and the price from there. The other order entries change nothing.
No orders are left over after a message, in either of the two handlers that use the vector. -/
theorem order_entries_follow_references (env : Env Qp Qo)
    (he : env.options.enableMarketByOrder = true) (items : List SecDef)
    (deliveries : List Delivery) (channelId : Nat) (value : Book46)
    (h0 : ∀ item ∈ value.noMDEntries, item.securityID ≠ 0) :
    let f := Feeds.run env deliveries (Feeds.ofSecDefs env items)
    let get := f.shared.securityDefinitions.getSecurity
    let cache := f.caches channelId
    let reaction := fun value =>
      react env.options f.shared.securityDefinitions cache f.shared.pending (.book46 value)
    (reaction value).calls.flatMap Call.orderUpdates =
        (referenced value).filterMap (orderUpdate46 get) ∧
      reaction (withoutDropped value) = reaction value ∧
      cache.orders = [] ∧ (reaction value).cache.orders = [] ∧
      ∀ (value47 : OrderBook47) (done rest : List Int),
        (cache.extend47 get value47).securityIds47 = done ++ rest →
        (flush47 get (cache.extend47 get value47).orders47 done cache.orders).1 = [] := by
  intro f get cache reaction
  have htidy : cache.Tidy := run_tidy env deliveries _ (fun _ => Cache.tidy_empty) channelId
  refine ⟨?_, book46_withoutDropped he get cache f.shared.pending value, htidy.orders, ?_, ?_⟩
  · rw [← visited46_of_ne_zero h0]
    exact book46_orderUpdates he get htidy.orders f.shared.pending value
  · exact (htidy.react env.options f.shared.securityDefinitions f.shared.pending _).orders
  · intro value47 done rest _
    rw [htidy.orders, flush47_spec]

/-- A price entry for a new level of bids. -/
def bidEntry (securityID : Int) (rptSeq : Nat) : Book46.Entry :=
  ⟨some 5000000000000, some 5, securityID, rptSeq, some 1, some 1, .new, .bid⟩

/-- A new order with a reference. -/
def orderEntry (orderId : Nat) (referenceID : Option Nat) : Book46.OrderEntry :=
  ⟨some orderId, some 1, some 2, referenceID, .new⟩

/-- Price entries of two securities with an unknown one between them, and orders of all of them. -/
def crossReferences : Book46 :=
  ⟨100, [bidEntry 7 2, bidEntry 9 5, bidEntry 8 3],
    [orderEntry 11 (some 3), orderEntry 12 none, orderEntry 13 (some 1), orderEntry 14 (some 2),
      orderEntry 15 (some 4), orderEntry 16 (some 0), orderEntry 17 (some 1)]⟩

theorem order_entries_follow_cross_references :
    let env := Env.direct { enableMarketByOrder := true }
    let f := Feeds.run env [] (Feeds.ofSecDefs env [SecDef.sample 7 "ESZ5", SecDef.sample 8 "NQZ5"])
    let r := react env.options f.shared.securityDefinitions (f.caches 310) f.shared.pending
      (.book46 crossReferences)
    (r.calls.flatMap Call.orderUpdates).map (fun p => (p.1, p.2.orderId)) =
        [(8, some 11), (7, some 13), (7, some 17)] ∧ r.cache.orders = [] := by
  intro env f r
  obtain ⟨hupdates, -, -, horders, -⟩ := order_entries_follow_references env rfl
    [SecDef.sample 7 "ESZ5", SecDef.sample 8 "NQZ5"] [] 310 crossReferences (by decide)
  refine ⟨(congrArg _ hupdates).trans ?_, horders⟩
  decide +kernel

/-- The message submits orders as a snapshot only for a security that has report number 1 in it. -/
def SnapshotsPerSecurity (r : Reaction) (value : Book46) : Prop :=
  ∀ c ∈ r.calls, ∀ orders, c.action = .dispatchMarketByOrder orders true →
    ∃ item ∈ value.noMDEntries, item.securityID = c.securityId ∧ item.rptSeq = 1

/-- If the message has report number 1 at all, then every known security that an order entry refers to
has it, too. -/
def FlagFits (get : Lookup Qp Qo) (value : Book46) : Prop :=
  (∃ item ∈ value.noMDEntries, item.rptSeq = 1) →
    ∀ p ∈ visited46 value, (get p.1.securityID).isSome →
      ∃ item ∈ value.noMDEntries, item.securityID = p.1.securityID ∧ item.rptSeq = 1

instance (get : Lookup Qp Qo) (value : Book46) : Decidable (FlagFits get value) :=
  inferInstanceAs (Decidable (_ → _))

theorem mem_orderUpdates {c : Call} {p : Int × MBOUpdate} (h : p ∈ c.orderUpdates) :
    p.1 = c.securityId := by
  unfold Call.orderUpdates at h
  split at h
  · obtain ⟨o, -, rfl⟩ := List.mem_map.1 h
    rfl
  · cases h

theorem Call.SubmitsOrders.exists_update {b : Bool} {c : Call} (h : c.SubmitsOrders b) :
    ∃ o, (c.securityId, o) ∈ c.orderUpdates := by
  obtain ⟨orders, hc, hne, hall⟩ := h
  obtain ⟨o, ho⟩ := List.exists_mem_of_ne_nil orders hne
  refine ⟨o, ?_⟩
  rw [Call.orderUpdates, hc]
  exact List.mem_map.2 ⟨o, List.mem_filter.2 ⟨ho, hall o ho⟩, rfl⟩

theorem flagged_iff (value : Book46) :
    flagged value = true ↔ ∃ item ∈ value.noMDEntries, item.rptSeq = 1 := by
  simp [flagged]

/-- A security gets an order update of a message if and only if it is known and an order entry refers
to it. -/
theorem exists_orderUpdate_iff (get : Lookup Qp Qo) (value : Book46) (i : Int) :
    (∃ o, (i, o) ∈ (visited46 value).filterMap (orderUpdate46 get)) ↔
      ∃ p ∈ visited46 value, p.1.securityID = i ∧ (get i).isSome := by
  constructor
  · rintro ⟨o, ho⟩
    obtain ⟨p, hp, hupdate⟩ := List.mem_filterMap.1 ho
    obtain ⟨security, hget, hpair⟩ := Option.map_eq_some_iff.1 hupdate
    cases hpair
    exact ⟨p, hp, rfl, by rw [hget]; rfl⟩
  · rintro ⟨p, hp, rfl, hsome⟩
    obtain ⟨security, hget⟩ := Option.isSome_iff_exists.1 hsome
    have hupdate : orderUpdate46 get p = some (p.1.securityID,
        mboUpdate46 p.2 security p.1.mDEntryType.map (priceNull9 p.1.mDEntryPx)) := by
      rw [orderUpdate46, hget, Option.map_some]
    exact ⟨_, List.mem_filterMap.2 ⟨p, hp, hupdate⟩⟩

theorem book46_snapshotsPerSecurity_iff {options : Options}
    (he : options.enableMarketByOrder = true) (get : Lookup Qp Qo) {cache : Cache}
    (hc : cache.orders = []) (pending : PendingSummary) (value : Book46) :
    SnapshotsPerSecurity (book46 options get cache pending value) value ↔ FlagFits get value := by
  obtain ⟨-, hcalls, hupdates⟩ := Order46Loop.run_submits get (flagged value) value
  have hsplit : ∀ c, c ∈ (book46 options get cache pending value).calls ↔
      c ∈ (Book46Loop.run options get value.noMDEntries).calls ∨
        c ∈ (Order46Loop.run get (value.noMDEntries.map mdEntryOf) (flagged value) []
          value.noOrderIDEntries).calls := by
    intro c
    simp only [book46_eq he, hc, List.mem_append]
  constructor
  · intro h hflag p hp hsome
    obtain ⟨o, ho⟩ := (exists_orderUpdate_iff get value p.1.securityID).2 ⟨p, hp, rfl, hsome⟩
    rw [← hupdates] at ho
    obtain ⟨c, hmem, hc⟩ := List.mem_flatMap.1 ho
    obtain ⟨orders, haction, -, -⟩ := hcalls c hmem
    rw [(flagged_iff value).2 hflag] at haction
    have hid : p.1.securityID = c.securityId := mem_orderUpdates hc
    rw [hid]
    exact h c ((hsplit c).2 (Or.inr hmem)) orders haction
  · intro h c hmem orders haction
    cases (hsplit c).1 hmem with
    | inl hprices =>
      have hfalse := Book46Loop.run_clearsOnly options get value.noMDEntries c hprices orders true
        haction
      cases hfalse.1
    | inr horders =>
      have hsubmits := hcalls c horders
      obtain ⟨orders', haction', -, -⟩ := hsubmits
      rw [haction] at haction'
      have hflag : flagged value = true := (Action.dispatchMarketByOrder.inj haction').2.symm
      obtain ⟨o, ho⟩ := (hcalls c horders).exists_update
      have hin : (c.securityId, o) ∈ (visited46 value).filterMap (orderUpdate46 get) := by
        rw [← hupdates]
        exact List.mem_flatMap.2 ⟨c, horders, ho⟩
      obtain ⟨p, hp, hid, hsome⟩ := (exists_orderUpdate_iff get value c.securityId).1 ⟨o, hin⟩
      rw [← hid] at hsome ⊢
      exact h ((flagged_iff value).1 hflag) p hp hsome

/-- In every run with market by order: the flag of a message of template 46 is per security exactly
when it fits. -/
theorem order_snapshot_flag_per_security_iff (env : Env Qp Qo)
    (he : env.options.enableMarketByOrder = true) (items : List SecDef)
    (deliveries : List Delivery) (channelId : Nat) (value : Book46) :
    let f := Feeds.run env deliveries (Feeds.ofSecDefs env items)
    SnapshotsPerSecurity (react env.options f.shared.securityDefinitions (f.caches channelId)
        f.shared.pending (.book46 value)) value ↔
      FlagFits f.shared.securityDefinitions.getSecurity value := by
  intro f
  have htidy : (f.caches channelId).Tidy :=
    run_tidy env deliveries _ (fun _ => Cache.tidy_empty) channelId
  exact book46_snapshotsPerSecurity_iff he _ htidy.orders _ value

/-- A restart of one security alone in its message. -/
theorem order_snapshot_flag_of_single_security :
    let env := Env.direct { enableMarketByOrder := true }
    let f := Feeds.run env [] (Feeds.ofSecDefs env [SecDef.sample 7 "ESZ5"])
    let value : Book46 := ⟨100, [bidEntry 7 1], [orderEntry 11 (some 1)]⟩
    let r := react env.options f.shared.securityDefinitions (f.caches 310) f.shared.pending
      (.book46 value)
    SnapshotsPerSecurity r value ∧ r.calls.any (fun c => c.orderUpdates ≠ []) = true := by
  intro env f value r
  have hfits : FlagFits f.shared.securityDefinitions.getSecurity value := by decide +kernel
  exact ⟨(order_snapshot_flag_per_security_iff env rfl [SecDef.sample 7 "ESZ5"] [] 310 value).2 hfits,
    by decide +kernel⟩

/-- Security 8 is at report 4. The next message also has report 1 of security 7, which restarts, and the
order of security 8 in it replaces its order book. -/
theorem order_snapshot_flag_of_other_security :
    let env := Env.direct { enableMarketByOrder := true }
    let before := [Delivery.incremental 310 1 ⟨1, 0⟩ (.limitsBanding50 [⟨8, 4⟩])]
    let f := Feeds.run env before
      (Feeds.ofSecDefs env [SecDef.sample 7 "ESZ5", SecDef.sample 8 "NQZ5"])
    let value : Book46 := ⟨100, [bidEntry 7 1, bidEntry 8 5], [orderEntry 11 (some 2)]⟩
    let r := react env.options f.shared.securityDefinitions (f.caches 310) f.shared.pending
      (.book46 value)
    let order : MBOUpdate := ⟨some 5000, 2, 1, some 11, .buy, .new⟩
    r.calls.getLast? = some ⟨8, .dispatchMarketByOrder [order] true⟩ ∧
      ¬ SnapshotsPerSecurity r value := by
  intro env before f value r order
  have hlast : r.calls.getLast? = some ⟨8, .dispatchMarketByOrder [order] true⟩ := by
    decide +kernel
  refine ⟨hlast, ?_⟩
  intro h
  obtain ⟨item, hitem, hid, hreport⟩ := h _ (List.mem_of_getLast? hlast) [order] rfl
  revert item
  decide

end RoqCme.MarketData
