import RoqCme.MarketData.ResetFragments
import RoqCme.Lib.Slices

/-! The orders of a trade summary. They arrive in one list, and each entry takes as many of them as
it says, one entry after the other. -/
namespace RoqCme.MarketData
open RoqCme.Lib RoqCme.Mdp RoqCme.Tools
variable {Qp Qo : Type}

/-- How many orders the entries ask for. -/
def ordersAsked (entries : List SummaryEntry) : Nat :=
  (entries.map SummaryEntry.numberOfOrders).sum

/-- The state with these entries and orders assembled. -/
def PendingSummary.of (transactTime : Nat) (entries : List SummaryEntry)
    (orders : List (Nat × Int)) : PendingSummary :=
  { tradeSummary := entries, securityIds := (entries.map SummaryEntry.securityId).eraseDups
    orders := orders, transactTime := transactTime
    totalNumberOfOrders := u64 (ordersAsked entries) }

theorem PendingSummary.empty_eq_of : ({} : PendingSummary) = .of 0 [] [] := rfl

theorem eraseDups_concat (ids : List Int) (i : Int) :
    (ids ++ [i]).eraseDups = if i ∈ ids.eraseDups then ids.eraseDups else ids.eraseDups ++ [i] := by
  rw [List.eraseDups_append]
  by_cases h : i ∈ ids
  · rw [if_pos (List.mem_eraseDups.2 h)]
    simp [List.removeAll, h]
  · rw [if_neg (fun hm => h (List.mem_eraseDups.1 hm))]
    simp [List.removeAll, h, List.eraseDups_cons]

theorem ordersAsked_append (xs ys : List SummaryEntry) :
    ordersAsked (xs ++ ys) = ordersAsked xs + ordersAsked ys := by
  simp [ordersAsked]

theorem insertSecurityId_of (t : Nat) (entries : List SummaryEntry) (orders : List (Nat × Int))
    (i : Int) : (PendingSummary.of t entries orders).insertSecurityId i =
      { PendingSummary.of t entries orders with
        securityIds := (entries.map SummaryEntry.securityId ++ [i]).eraseDups } := by
  rw [PendingSummary.insertSecurityId, eraseDups_concat]
  by_cases h : i ∈ (entries.map SummaryEntry.securityId).eraseDups
  · simp only [PendingSummary.of, h, if_true]
  · simp only [PendingSummary.of, h, if_false]

theorem addEntry_of (t : Nat) (entries : List SummaryEntry) (orders : List (Nat × Int))
    (item : TradeSummary.Entry) : (PendingSummary.of t entries orders).addEntry item =
      .of t (entries ++ [SummaryEntry.ofItem item]) orders := by
  have htotal : u64 (u64 (ordersAsked entries) + toSize item.numberOfOrders) =
      u64 (ordersAsked (entries ++ [SummaryEntry.ofItem item])) := by
    rw [ordersAsked_append, u64, u64, u64, Nat.mod_add_mod]
    simp [ordersAsked, SummaryEntry.ofItem]
  rw [PendingSummary.addEntry, insertSecurityId_of]
  simp only [PendingSummary.of, List.map_append, List.map_singleton, ← htotal]
  rfl

theorem foldl_addEntry_of (items : List TradeSummary.Entry) (t : Nat) (entries : List SummaryEntry)
    (orders : List (Nat × Int)) :
    items.foldl PendingSummary.addEntry (.of t entries orders) =
      .of t (entries ++ items.map SummaryEntry.ofItem) orders := by
  induction items generalizing entries with
  | nil => simp
  | cons item items ih =>
    rw [List.foldl_cons, addEntry_of, ih, List.map_cons, List.append_assoc, List.singleton_append]

theorem foldl_addOrder_of (items : List TradeSummary.OrderEntry) (t : Nat)
    (entries : List SummaryEntry) (orders : List (Nat × Int)) :
    items.foldl PendingSummary.addOrder (.of t entries orders) =
      .of t entries (orders ++ items.map fun item => (item.orderID, toInt32 item.lastQty)) := by
  induction items generalizing orders with
  | nil => simp
  | cons item items ih =>
    have hone : (PendingSummary.of t entries orders).addOrder item =
        .of t entries (orders ++ [(item.orderID, toInt32 item.lastQty)]) := rfl
    rw [List.foldl_cons, hone, ih, List.map_cons, List.append_assoc, List.singleton_append]

/-- A fragment adds its entries and its orders. -/
theorem assemble_of {t : Nat} (entries : List SummaryEntry) (orders : List (Nat × Int))
    {value : TradeSummary} (h : value.transactTime = t) :
    (PendingSummary.of t entries orders).assemble value =
      .of t (entries ++ entriesIn [value]) (orders ++ ordersIn [value]) := by
  have hstart : (if value.transactTime = (PendingSummary.of t entries orders).transactTime then
      PendingSummary.of t entries orders else { transactTime := value.transactTime }) =
      .of t entries orders := if_pos h
  rw [PendingSummary.assemble]
  simp only [hstart]
  rw [foldl_addEntry_of, foldl_addOrder_of]
  simp [entriesIn, ordersIn]

/-- A message with another transact time starts afresh, and so does one that finds nothing
pending. -/
theorem assemble_fresh_of {p : PendingSummary} {value : TradeSummary}
    (h : value.transactTime ≠ p.transactTime ∨ p = {}) :
    p.assemble value = .of value.transactTime (entriesIn [value]) (ordersIn [value]) := by
  have hstart : (if value.transactTime = p.transactTime then p else
      { transactTime := value.transactTime }) = .of value.transactTime [] [] := by
    obtain hne | rfl := h
    · rw [if_neg hne]
      rfl
    · split
      · next heq =>
        rw [heq]
        rfl
      · rfl
  rw [PendingSummary.assemble]
  simp only [hstart]
  rw [foldl_addEntry_of, foldl_addOrder_of]
  simp [entriesIn, ordersIn]

namespace SummaryEntry

/-- The order has traded. -/
def mboTrade (e : SummaryEntry) (factor : Double) (side : Side) (order : Nat × Int) : MBOUpdate :=
  { price := e.price.mul factor, quantity := order.2, priority := 0, orderId := some order.1
    side := side, action := .trade }

/-- The order has traded as taker or as maker. -/
def tradeOf (e : SummaryEntry) (factor : Double) (order : Nat × Int)
    (takerOrderId makerOrderId : Option Nat) : Trade :=
  { side := e.aggressorSide, price := e.price.mul factor, quantity := order.2, tradeId := e.tradeId
    takerOrderId := takerOrderId, makerOrderId := makerOrderId }

/-- The order updates for a slice of the orders. Without an aggressor all orders are makers; else
the first one is the taker's, and the side is that of the makers if it has the whole quantity. -/
def mboUpdatesOf (e : SummaryEntry) (factor : Double) : List (Nat × Int) → List MBOUpdate
  | [] => []
  | first :: rest =>
    if e.aggressorSide = .undefined then (first :: rest).map (e.mboTrade factor .undefined)
    else if first.2 = e.size then rest.map (e.mboTrade factor e.aggressorSide.invert)
    else rest.map (e.mboTrade factor e.aggressorSide)

/-- The trades for a slice of the orders. The taker has a trade of its own if it is alone or does
not have the whole quantity. -/
def tradesOf (e : SummaryEntry) (factor : Double) : List (Nat × Int) → List Trade
  | [] => []
  | first :: rest =>
    if e.aggressorSide = .undefined then
      (first :: rest).map fun maker => e.tradeOf factor maker none (some maker.1)
    else
      (if e.numberOfOrders = 1 ∨ first.2 ≠ e.size then
          [e.tradeOf factor first (some first.1) none]
        else []) ++
      rest.map fun maker => e.tradeOf factor maker (if first.2 = e.size then some first.1 else none)
        (some maker.1)

/-- Where there is an aggressor its order is counted. -/
def TakerCounted (e : SummaryEntry) : Prop := e.aggressorSide ≠ .undefined → 1 ≤ e.numberOfOrders

instance (e : SummaryEntry) : Decidable e.TakerCounted :=
  inferInstanceAs (Decidable (e.aggressorSide ≠ .undefined → 1 ≤ e.numberOfOrders))

theorem ordersFrom_eq {orders : List (Nat × Int)} {offset n : Nat} (offset2 : Nat)
    (h : offset + n ≤ orders.length) :
    ordersFrom orders offset offset2 n = some (((orders.drop offset).take n).drop offset2) := by
  rw [ordersFrom]
  by_cases hn : n ≤ offset2
  · rw [if_pos hn, List.drop_eq_nil_of_le]
    rw [List.length_take]
    omega
  · rw [if_neg hn, if_pos h, List.drop_take, List.drop_drop]

/-- The slice of an entry that counts its taker starts with the order at the offset. -/
theorem slice_eq_cons {orders : List (Nat × Int)} {offset n : Nat} (h : offset + n ≤ orders.length)
    (hn : 1 ≤ n) : ∃ first rest, orders[offset]? = some first ∧
      (orders.drop offset).take n = first :: rest := by
  have hlt : offset < orders.length := by omega
  obtain ⟨m, rfl⟩ : ∃ m, n = m + 1 := ⟨n - 1, by omega⟩
  refine ⟨orders[offset], (orders.drop (offset + 1)).take m, List.getElem?_eq_getElem hlt, ?_⟩
  rw [List.drop_eq_getElem_cons hlt, List.take_succ_cons]

theorem mboUpdates_eq (e : SummaryEntry) (factor : Double) {orders : List (Nat × Int)}
    {offset : Nat} (h : offset + e.numberOfOrders ≤ orders.length) (he : e.TakerCounted) :
    e.mboUpdates factor orders offset =
      some (e.mboUpdatesOf factor ((orders.drop offset).take e.numberOfOrders)) := by
  by_cases ha : e.aggressorSide = .undefined
  · simp only [mboUpdates, ha, ne_eq, not_true_eq_false, if_false, ordersFrom_eq 0 h,
      List.drop_zero, Option.map_some]
    cases (orders.drop offset).take e.numberOfOrders with
    | nil => rfl
    | cons first rest =>
      rw [mboUpdatesOf, if_pos ha]
      rfl
  · obtain ⟨first, rest, hfirst, hslice⟩ := slice_eq_cons h (he ha)
    simp only [mboUpdates, ne_eq, ha, not_false_eq_true, if_true, hfirst, ordersFrom_eq 1 h,
      hslice, List.drop_one, List.tail_cons, Option.map_some, mboUpdatesOf, if_false]
    by_cases hq : first.2 = e.size
    · rw [if_pos hq, if_pos hq]
      rfl
    · rw [if_neg hq, if_neg hq]
      rfl

theorem trades_eq (e : SummaryEntry) (factor : Double) {orders : List (Nat × Int)}
    {offset : Nat} (h : offset + e.numberOfOrders ≤ orders.length) (he : e.TakerCounted) :
    e.trades factor orders offset =
      some (e.tradesOf factor ((orders.drop offset).take e.numberOfOrders)) := by
  by_cases ha : e.aggressorSide = .undefined
  · simp only [trades, ha, ne_eq, not_true_eq_false, if_false, ordersFrom_eq 0 h,
      List.drop_zero, Option.map_some]
    cases (orders.drop offset).take e.numberOfOrders with
    | nil => rfl
    | cons first rest =>
      rw [tradesOf, if_pos ha]
      simp only [tradeOf, ha]
  · obtain ⟨first, rest, hfirst, hslice⟩ := slice_eq_cons h (he ha)
    simp only [trades, ne_eq, ha, not_false_eq_true, if_true, hfirst, ordersFrom_eq 1 h,
      hslice, List.drop_one, List.tail_cons, Option.map_some, tradesOf, if_false]
    by_cases hq : first.2 = e.size
    · simp only [tradeOf, hq, if_true, not_true_eq_false, or_false]
    · simp only [tradeOf, hq, if_false, not_false_eq_true, or_true, if_true]

end SummaryEntry

/-- The loop over the entries collects the slices of one security, in order. -/
theorem collect_slices {δ : Type} {f : SummaryEntry → Nat → Option (List δ)}
    {g : SummaryEntry → List (Nat × Int) → List δ} {orders : List (Nat × Int)}
    (hf : ∀ e offset, e.TakerCounted → offset + e.numberOfOrders ≤ orders.length →
      f e offset = some (g e ((orders.drop offset).take e.numberOfOrders)))
    (securityId : Int) (entries : List SummaryEntry) (offset : Nat)
    (hcount : offset + ordersAsked entries ≤ orders.length)
    (hsize : offset + ordersAsked entries < 2 ^ 64)
    (htaker : ∀ e ∈ entries, e.TakerCounted) :
    collect f securityId offset entries =
      some ((slices SummaryEntry.numberOfOrders entries (orders.drop offset)).flatMap fun p =>
        if securityId = p.1.securityId then g p.1 p.2 else []) := by
  induction entries generalizing offset with
  | nil => rfl
  | cons e entries ih =>
    rw [ordersAsked, List.map_cons, List.sum_cons, ← ordersAsked] at hcount hsize
    have hnext : u64 (offset + e.numberOfOrders) = offset + e.numberOfOrders :=
      Nat.mod_eq_of_lt (by omega)
    have hrest := ih (offset + e.numberOfOrders) (by omega) (by omega)
      fun e' he' => htaker e' (List.mem_cons_of_mem e he')
    have hhere : (if securityId = e.securityId then f e offset else some []) =
        some (if securityId = e.securityId then
          g e ((orders.drop offset).take e.numberOfOrders) else []) := by
      split
      · exact hf e offset (htaker e List.mem_cons_self) (by omega)
      · rfl
    rw [collect, hhere, hnext, hrest, slices_cons, List.flatMap_cons, List.drop_drop]

/-- One call for each known security with something to tell. -/
def callsFor {δ : Type} (get : Lookup Qp Qo) (items : Int → Security Qp Qo → List δ)
    (action : List δ → Action) (ids : List Int) : List Call :=
  ids.flatMap fun i =>
    match get i with
    | none => []
    | some security => if items i security = [] then [] else [⟨i, action (items i security)⟩]

theorem callsFor_cons {δ : Type} (get : Lookup Qp Qo) (items : Int → Security Qp Qo → List δ)
    (action : List δ → Action) (i : Int) (ids : List Int) :
    callsFor get items action (i :: ids) =
      (match get i with
        | none => []
        | some security =>
          if items i security = [] then [] else [⟨i, action (items i security)⟩]) ++
      callsFor get items action ids := rfl

theorem forSecurities_eq {δ : Type} (get : Lookup Qp Qo)
    {content : Int → Security Qp Qo → Option (List δ)} (items : Int → Security Qp Qo → List δ)
    (h : ∀ i security, content i security = some (items i security)) (action : List δ → Action)
    (ids : List Int) :
    forSecurities get content action ids = some (callsFor get items action ids) := by
  induction ids with
  | nil => rfl
  | cons i ids ih =>
    rw [forSecurities, ih, callsFor_cons]
    cases hget : get i with
    | none => rfl
    | some security =>
      simp only [h, Option.map_some, Option.some.injEq]
      split
      · rfl
      · rfl

/-- What the slices of one security add up to. -/
def slicesFor {δ : Type} (g : SummaryEntry → Double → List (Nat × Int) → List δ)
    (entries : List SummaryEntry) (orders : List (Nat × Int)) (securityId : Int)
    (security : Security Qp Qo) : List δ :=
  (slices SummaryEntry.numberOfOrders entries orders).flatMap fun p =>
    if securityId = p.1.securityId then g p.1 security.displayFactor p.2 else []

/-- The calls for these entries and orders. -/
def summaryCalls (get : Lookup Qp Qo) (entries : List SummaryEntry) (orders : List (Nat × Int)) :
    List Call :=
  let ids := (entries.map SummaryEntry.securityId).eraseDups
  callsFor get (slicesFor SummaryEntry.mboUpdatesOf entries orders)
      (fun updates => .dispatchMarketByOrder updates false) ids ++
    callsFor get (slicesFor SummaryEntry.tradesOf entries orders) .tradeSummary ids

theorem calls_of (get : Lookup Qp Qo) (t : Nat) (entries : List SummaryEntry)
    (orders : List (Nat × Int)) (hcount : ordersAsked entries ≤ orders.length)
    (hsize : ordersAsked entries < 2 ^ 64) (htaker : ∀ e ∈ entries, e.TakerCounted) :
    (PendingSummary.of t entries orders).calls get = some (summaryCalls get entries orders) := by
  have hmbo := forSecurities_eq get (slicesFor SummaryEntry.mboUpdatesOf entries orders)
    (fun i security => collect_slices (fun e offset he h => e.mboUpdates_eq security.displayFactor h he)
      i entries 0 (by omega) (by omega) htaker) (fun updates => .dispatchMarketByOrder updates false)
    (entries.map SummaryEntry.securityId).eraseDups
  have htrades := forSecurities_eq get (slicesFor SummaryEntry.tradesOf entries orders)
    (fun i security => collect_slices (fun e offset he h => e.trades_eq security.displayFactor h he)
      i entries 0 (by omega) (by omega) htaker) .tradeSummary
    (entries.map SummaryEntry.securityId).eraseDups
  rw [PendingSummary.calls]
  simp only [PendingSummary.of, hmbo, htrades]
  rfl

theorem dispatchTradeSummary_complete (get : Lookup Qp Qo) (cache : Cache)
    {pending : PendingSummary} {value : TradeSummary} {t : Nat} {entries : List SummaryEntry}
    {orders : List (Nat × Int)} (h : pending.assemble value = .of t entries orders)
    (hcount : ordersAsked entries ≤ orders.length) (hsize : ordersAsked entries < 2 ^ 64)
    (htaker : ∀ e ∈ entries, e.TakerCounted) :
    dispatchTradeSummary get cache pending value =
      { cache := cache, pending := {}, exchangeTimeUtc := value.transactTime
        calls := reportCalls get value.noMDEntries ++ summaryCalls get entries orders } := by
  have htotal : ¬ orders.length < (PendingSummary.of t entries orders).totalNumberOfOrders := by
    have hu : u64 (ordersAsked entries) = ordersAsked entries := Nat.mod_eq_of_lt (by omega)
    simp only [PendingSummary.of, hu]
    omega
  have horders : (PendingSummary.of t entries orders).orders = orders := rfl
  rw [dispatchTradeSummary]
  simp only [h, horders, htotal, if_false, calls_of get t entries orders hcount hsize htaker]

/-- When the entries have all their orders, the updates of each security are built from the slices of
its entries, in order. The slice of an entry starts where the slices of the entries before it end,
and together they are the list of orders. A list in memory has fewer than 2^64 elements. -/
theorem summary_orders_attributed (get : Lookup Qp Qo) (cache : Cache) (pending : PendingSummary)
    (value : TradeSummary) (t : Nat) (entries : List SummaryEntry) (orders : List (Nat × Int))
    (h : pending.assemble value = .of t entries orders)
    (hcount : ordersAsked entries = orders.length) (hsize : orders.length < 2 ^ 64)
    (htaker : ∀ e ∈ entries, e.TakerCounted) :
    dispatchTradeSummary get cache pending value =
        { cache := cache, pending := {}, exchangeTimeUtc := value.transactTime
          calls := reportCalls get value.noMDEntries ++ summaryCalls get entries orders } ∧
      (∀ i : Nat, (slices SummaryEntry.numberOfOrders entries orders)[i]? = entries[i]?.map fun e =>
        (e, (orders.drop (ordersAsked (entries.take i))).take e.numberOfOrders)) ∧
      ((slices SummaryEntry.numberOfOrders entries orders).map Prod.snd).flatten = orders :=
  ⟨dispatchTradeSummary_complete get cache h hcount.le (hcount ▸ hsize) htaker,
    slices_getElem? SummaryEntry.numberOfOrders entries orders,
    slices_map_snd SummaryEntry.numberOfOrders entries orders hcount⟩

/-- A buyer of 5 against two makers, between them an order of a security that is not known, and a
seller who joined the book. -/
def TradeSummary.sample : TradeSummary :=
  { transactTime := 1
    noMDEntries :=
      [⟨5000000000000, 5, 7, 2, 3, some 10, .buy⟩, ⟨1000000000, 1, 9, 3, 1, some 11, .noAggressor⟩,
        ⟨5001000000000, 4, 7, 3, 2, some 12, .sell⟩]
    noOrderIDEntries := [⟨1, 5⟩, ⟨2, 3⟩, ⟨3, 2⟩, ⟨4, 1⟩, ⟨5, 3⟩, ⟨6, 4⟩] }

theorem summary_orders_attributed_sample :
    let get : Lookup Unit Unit := fun i =>
      if i = 7 then some (newSecurity () () "CME" "ESZ5" (some 1) false) else none
    (dispatchTradeSummary get {} {} TradeSummary.sample).calls =
        reportCalls get TradeSummary.sample.noMDEntries ++
          summaryCalls get (entriesIn [TradeSummary.sample]) (ordersIn [TradeSummary.sample]) ∧
      summaryCalls get (entriesIn [TradeSummary.sample]) (ordersIn [TradeSummary.sample]) =
        [⟨7, .dispatchMarketByOrder
            [⟨some 5000, 3, 0, some 2, .sell, .trade⟩, ⟨some 5000, 2, 0, some 3, .sell, .trade⟩,
              ⟨some 5001, 4, 0, some 6, .sell, .trade⟩] false⟩,
          ⟨7, .tradeSummary
            [⟨.buy, some 5000, 3, 10, some 1, some 2⟩, ⟨.buy, some 5000, 2, 10, some 1, some 3⟩,
              ⟨.sell, some 5001, 3, 12, some 5, none⟩, ⟨.sell, some 5001, 4, 12, none, some 6⟩]⟩] := by
  intro get
  have hcalls := (summary_orders_attributed get {} {} TradeSummary.sample 1
    (entriesIn [TradeSummary.sample]) (ordersIn [TradeSummary.sample])
    (assemble_fresh_of (Or.inr rfl)) (by decide +kernel) (by decide +kernel)
    (by decide +kernel)).1
  exact ⟨congrArg Reaction.calls hcalls, by decide +kernel⟩

end RoqCme.MarketData
