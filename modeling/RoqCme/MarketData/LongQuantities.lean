import RoqCme.MarketData.OrderAccess

/-! The quantities of a trade summary. Template 65 has 64-bit quantities, but both templates pass
through the same tuples, which keep 32 bits. -/
namespace RoqCme.MarketData
open RoqCme.Lib RoqCme.Mdp RoqCme.Tools
variable {Qp Qo : Type}

/-- The entries with the full quantities of the messages. -/
def fullEntries (values : List TradeSummary) : List SummaryEntry :=
  values.flatMap fun value => value.noMDEntries.map fun item =>
    { SummaryEntry.ofItem item with size := item.mDEntrySize }

def fullOrders (values : List TradeSummary) : List (Nat × Int) :=
  values.flatMap fun value => value.noOrderIDEntries.map fun item => (item.orderID, item.lastQty)

def FitsInt32 (n : Int) : Prop := -2 ^ 31 ≤ n ∧ n < 2 ^ 31

instance (n : Int) : Decidable (FitsInt32 n) := inferInstanceAs (Decidable (_ ∧ _))

theorem toInt32_eq_self_iff (n : Int) : toInt32 n = n ↔ FitsInt32 n := by
  rw [toInt32, Int.bmod_def, FitsInt32]
  split
  · omega
  · omega

theorem toInt32_eq_iff (m n : Int) : toInt32 m = toInt32 n ↔ m % 2 ^ 32 = n % 2 ^ 32 := by
  rw [toInt32, toInt32, Int.bmod_def, Int.bmod_def]
  split
  · split
    · omega
    · omega
  · split
    · omega
    · omega

/-- What `trade_summary_` and `orders_` keep of an entry and of an order. -/
def SummaryEntry.held (e : SummaryEntry) : SummaryEntry := { e with size := toInt32 e.size }

def heldOrder (order : Nat × Int) : Nat × Int := (order.1, toInt32 order.2)

theorem entriesIn_eq_held (values : List TradeSummary) :
    entriesIn values = (fullEntries values).map SummaryEntry.held := by
  simp only [entriesIn, fullEntries, List.map_flatMap, List.map_map]
  rfl

theorem ordersIn_eq_held (values : List TradeSummary) :
    ordersIn values = (fullOrders values).map heldOrder := by
  simp only [ordersIn, fullOrders, List.map_flatMap, List.map_map]
  rfl


def narrowUpdate (u : MBOUpdate) : MBOUpdate := { u with quantity := toInt32 u.quantity }

def narrowTrade (t : Trade) : Trade := { t with quantity := toInt32 t.quantity }

/-- The taker test has the same outcome on what is held as on the full values. -/
def SummaryEntry.SameTest (e : SummaryEntry) (orders : List (Nat × Int)) (offset : Nat) : Prop :=
  e.aggressorSide ≠ .undefined → ∀ taker, orders[offset]? = some taker →
    (toInt32 taker.2 = toInt32 e.size ↔ taker.2 = e.size)

theorem ordersFrom_held (orders : List (Nat × Int)) (offset offset2 n : Nat) :
    ordersFrom (orders.map heldOrder) offset offset2 n =
      (ordersFrom orders offset offset2 n).map (List.map heldOrder) := by
  rw [ordersFrom, ordersFrom, List.length_map]
  split
  · rfl
  · split
    · rw [Option.map_some, List.map_take, List.map_drop]
    · rfl

theorem SummaryEntry.mboUpdates_held (e : SummaryEntry) (factor : Double)
    (orders : List (Nat × Int)) (offset : Nat) (h : e.SameTest orders offset) :
    e.held.mboUpdates factor (orders.map heldOrder) offset =
      (e.mboUpdates factor orders offset).map (List.map narrowUpdate) := by
  by_cases ha : e.aggressorSide = .undefined
  · simp only [mboUpdates, held, ha, ne_eq, not_true_eq_false, if_false, ordersFrom_held,
      Option.map_map]
    congr 1
    funext makers
    simp [narrowUpdate, heldOrder]
  · simp only [mboUpdates, held, ha, ne_eq, not_false_eq_true, if_true, ordersFrom_held,
      List.getElem?_map]
    cases htaker : orders[offset]? with
    | none => rfl
    | some taker =>
      have htest : ((heldOrder taker).2 = toInt32 e.size) = (taker.2 = e.size) :=
        propext (h ha taker htaker)
      simp only [Option.map_some, htest, Option.map_map]
      congr 1
      funext makers
      simp [narrowUpdate, heldOrder]

theorem SummaryEntry.trades_held (e : SummaryEntry) (factor : Double)
    (orders : List (Nat × Int)) (offset : Nat) (h : e.SameTest orders offset) :
    e.held.trades factor (orders.map heldOrder) offset =
      (e.trades factor orders offset).map (List.map narrowTrade) := by
  by_cases ha : e.aggressorSide = .undefined
  · simp only [trades, held, ha, ne_eq, not_true_eq_false, if_false, ordersFrom_held,
      Option.map_map]
    congr 1
    funext makers
    simp [narrowTrade, heldOrder]
  · simp only [trades, held, ha, ne_eq, not_false_eq_true, if_true, ordersFrom_held,
      List.getElem?_map]
    cases htaker : orders[offset]? with
    | none => rfl
    | some taker =>
      have htest : ((heldOrder taker).2 = toInt32 e.size) = (taker.2 = e.size) :=
        propext (h ha taker htaker)
      simp only [Option.map_some, htest, Option.map_map]
      congr 1
      funext makers
      by_cases hq : taker.2 = e.size
      · by_cases hn : e.numberOfOrders = 1
        · simp [narrowTrade, heldOrder, hq, hn]
        · simp [narrowTrade, heldOrder, hq, hn]
      · simp [narrowTrade, heldOrder, hq]

theorem collect_held {δ : Type} {f f' : SummaryEntry → Nat → Option (List δ)} {narrow : δ → δ}
    {i : Int} (entries : List SummaryEntry) (offset : Nat)
    (h : ∀ q ∈ offsetsOf offset entries, i = q.1.securityId →
      f' q.1.held q.2 = (f q.1 q.2).map (List.map narrow)) :
    collect f' i offset (entries.map SummaryEntry.held) =
      (collect f i offset entries).map (List.map narrow) := by
  induction entries generalizing offset with
  | nil => rfl
  | cons e entries ih =>
    have hrest := ih (u64 (offset + e.numberOfOrders)) fun q hq => h q (List.mem_cons_of_mem _ hq)
    have hhere : (if i = e.securityId then f' e.held offset else some []) =
        (if i = e.securityId then f e offset else some []).map (List.map narrow) := by
      split
      · next hi => exact h (e, offset) List.mem_cons_self hi
      · rfl
    have hsame : e.held.securityId = e.securityId ∧ e.held.numberOfOrders = e.numberOfOrders :=
      ⟨rfl, rfl⟩
    rw [List.map_cons, collect, collect, hsame.1, hsame.2, hhere, hrest]
    cases (if i = e.securityId then f e offset else some []) with
    | none => rfl
    | some here =>
      cases collect f i (u64 (offset + e.numberOfOrders)) entries with
      | none => rfl
      | some later => simp

/-- Everything that is collected has the property if every entry of the security gives such things
only. -/
theorem forall_collect {δ : Type} {f : SummaryEntry → Nat → Option (List δ)} {i : Int}
    {entries : List SummaryEntry} {offset : Nat} {items : List δ}
    (h : collect f i offset entries = some items) (P : δ → Prop) :
    (∀ x ∈ items, P x) ↔ ∀ q ∈ offsetsOf offset entries, i = q.1.securityId →
      ∃ here, f q.1 q.2 = some here ∧ ∀ x ∈ here, P x := by
  induction entries generalizing offset items with
  | nil =>
    rw [collect, Option.some.injEq] at h
    subst h
    simp [offsetsOf]
  | cons e entries ih =>
    rw [collect] at h
    split at h
    · next here later hhere hlater =>
      cases h
      have hfirst : (∀ x ∈ here, P x) ↔
          (i = e.securityId → ∃ here, f e offset = some here ∧ ∀ x ∈ here, P x) := by
        by_cases hi : i = e.securityId
        · rw [if_pos hi] at hhere
          simp [hi, hhere]
        · rw [if_neg hi, Option.some.injEq] at hhere
          simp [hi, ← hhere]
      rw [List.forall_mem_append, hfirst, ih hlater, offsetsOf, List.forall_mem_cons]
    · cases h

theorem exists_collect {δ : Type} {f : SummaryEntry → Nat → Option (List δ)} {i : Int}
    (entries : List SummaryEntry) (offset : Nat)
    (h : ∀ q ∈ offsetsOf offset entries, i = q.1.securityId → ∃ here, f q.1 q.2 = some here) :
    ∃ items, collect f i offset entries = some items := by
  induction entries generalizing offset with
  | nil => exact ⟨[], rfl⟩
  | cons e entries ih =>
    obtain ⟨later, hlater⟩ := ih _ fun q hq => h q (List.mem_cons_of_mem _ hq)
    have hhere : ∃ here, (if i = e.securityId then f e offset else some []) = some here := by
      split
      · next hi => exact h (e, offset) List.mem_cons_self hi
      · exact ⟨[], rfl⟩
    obtain ⟨here, hhere⟩ := hhere
    exact ⟨here ++ later, by rw [collect, hhere, hlater]⟩

theorem offsetsOf_map_fst (entries : List SummaryEntry) (offset : Nat) :
    (offsetsOf offset entries).map Prod.fst = entries := by
  induction entries generalizing offset with
  | nil => rfl
  | cons e entries ih => rw [offsetsOf, List.map_cons, ih]

theorem map_eq_self_iff {δ : Type} (f : δ → δ) (xs : List δ) :
    xs.map f = xs ↔ ∀ x ∈ xs, f x = x := by
  have h := List.map_inj_left (f := f) (g := id) (l := xs)
  rw [List.map_id] at h
  exact h

def Action.narrow : Action → Action
  | .dispatchMarketByOrder orders isSnapshot =>
    .dispatchMarketByOrder (orders.map narrowUpdate) isSnapshot
  | .tradeSummary trades => .tradeSummary (trades.map narrowTrade)
  | a => a

def Call.narrow (call : Call) : Call := ⟨call.securityId, call.action.narrow⟩

/-- The quantities of the call fit. -/
def Call.Fits (call : Call) : Prop :=
  match call.action with
  | .dispatchMarketByOrder orders _ => ∀ u ∈ orders, FitsInt32 u.quantity
  | .tradeSummary trades => ∀ t ∈ trades, FitsInt32 t.quantity
  | _ => True

theorem map_narrow_eq_self_iff (calls : List Call) :
    calls.map Call.narrow = calls ↔ ∀ call ∈ calls, call.Fits := by
  have hone : ∀ call : Call, call.narrow = call ↔ call.Fits := by
    intro call
    have hupdate : ∀ u : MBOUpdate, narrowUpdate u = u ↔ FitsInt32 u.quantity := by
      intro u
      rw [← toInt32_eq_self_iff]
      exact ⟨fun h => congrArg MBOUpdate.quantity h, fun h => by rw [narrowUpdate, h]⟩
    have htrade : ∀ t : Trade, narrowTrade t = t ↔ FitsInt32 t.quantity := by
      intro t
      rw [← toInt32_eq_self_iff]
      exact ⟨fun h => congrArg Trade.quantity h, fun h => by rw [narrowTrade, h]⟩
    cases call with
    | mk i a =>
      cases a with
      | dispatchMarketByOrder orders b =>
        simp [Call.narrow, Action.narrow, Call.Fits, ← hupdate, map_eq_self_iff]
      | tradeSummary trades =>
        simp [Call.narrow, Action.narrow, Call.Fits, ← htrade, map_eq_self_iff]
      | _ => exact iff_of_true rfl trivial
  simp only [map_eq_self_iff, hone]

theorem forSecurities_held {δ : Type} {get : Lookup Qp Qo}
    {content content' : Int → Security Qp Qo → Option (List δ)} {narrow : δ → δ}
    {action : List δ → Action} (ids : List Int)
    (haction : ∀ items, (action items).narrow = action (items.map narrow))
    (h : ∀ i security, get i = some security →
      content' i security = (content i security).map (List.map narrow)) :
    forSecurities get content' action ids =
      (forSecurities get content action ids).map (List.map Call.narrow) := by
  induction ids with
  | nil => rfl
  | cons i ids ih =>
    rw [forSecurities, forSecurities, ih]
    cases hget : get i with
    | none => rfl
    | some security =>
      have hcontent := h i security hget
      cases forSecurities get content action ids with
      | none => rfl
      | some later =>
        simp only [Option.map_some, hcontent]
        cases content i security with
        | none => rfl
        | some items =>
          by_cases hitems : items = []
          · simp [hitems]
          · simp [hitems, Call.narrow, haction]

theorem forall_forSecurities {δ : Type} {get : Lookup Qp Qo}
    {content : Int → Security Qp Qo → Option (List δ)} {action : List δ → Action} {ids : List Int}
    {calls : List Call} (h : forSecurities get content action ids = some calls) {C : Call → Prop}
    {P : δ → Prop} (haction : ∀ i items, C ⟨i, action items⟩ ↔ ∀ x ∈ items, P x) :
    (∀ call ∈ calls, C call) ↔ ∀ i ∈ ids, ∀ security, get i = some security →
      ∃ items, content i security = some items ∧ ∀ x ∈ items, P x := by
  induction ids generalizing calls with
  | nil =>
    rw [forSecurities, Option.some.injEq] at h
    subst h
    simp
  | cons i ids ih =>
    rw [List.forall_mem_cons]
    simp only [forSecurities] at h
    split at h
    · next hget =>
      rw [ih h]
      simp [hget]
    · next security later hget hlater =>
      obtain ⟨items, hitems, rfl⟩ := Option.map_eq_some_iff.1 h
      have hfirst : (∀ s, get i = some s → ∃ items, content i s = some items ∧ ∀ x ∈ items, P x) ↔
          ∀ x ∈ items, P x := by
        simp [hget, hitems]
      rw [hfirst, ← ih hlater]
      by_cases hempty : items = []
      · simp [hempty]
      · rw [if_neg hempty, List.forall_mem_cons, haction]
    · cases h

/-- All calls of one pass have a property if what the known entries give has it. -/
theorem forall_pass {δ : Type} {get : Lookup Qp Qo} {entries : List SummaryEntry}
    {f : Double → SummaryEntry → Nat → Option (List δ)} {action : List δ → Action}
    {calls : List Call} (C : Call → Prop) (P : δ → Prop)
    (h : forSecurities get (fun i security => collect (f security.displayFactor) i 0 entries) action
      (entries.map SummaryEntry.securityId).eraseDups = some calls)
    (haction : ∀ i items, C ⟨i, action items⟩ ↔ ∀ x ∈ items, P x) :
    (∀ call ∈ calls, C call) ↔ ∀ q ∈ offsetsOf 0 entries, ∀ security,
      get q.1.securityId = some security →
        ∃ here, f security.displayFactor q.1 q.2 = some here ∧ ∀ x ∈ here, P x := by
  rw [forall_forSecurities h haction]
  constructor
  · intro hall q hq security hget
    have hmem : q.1 ∈ (offsetsOf 0 entries).map Prod.fst := List.mem_map_of_mem hq
    rw [offsetsOf_map_fst] at hmem
    obtain ⟨items, hitems, hP⟩ := hall q.1.securityId
      (List.mem_eraseDups.2 (List.mem_map_of_mem hmem)) security hget
    exact (forall_collect hitems P).1 hP q hq rfl
  · intro hall i hi security hget
    have hfound : ∀ q ∈ offsetsOf 0 entries, i = q.1.securityId →
        ∃ here, f security.displayFactor q.1 q.2 = some here ∧ ∀ x ∈ here, P x := by
      intro q hq hid
      exact hall q hq security (by rw [← hid]; exact hget)
    obtain ⟨items, hitems⟩ := exists_collect entries 0 fun q hq hid =>
      (hfound q hq hid).imp fun here hhere => hhere.1
    exact ⟨items, hitems, (forall_collect hitems P).2 hfound⟩

/-- What the two passes over the entries collect for one security. -/
def mboContent (entries : List SummaryEntry) (orders : List (Nat × Int)) (i : Int)
    (security : Security Qp Qo) : Option (List MBOUpdate) :=
  collect (fun e offset => e.mboUpdates security.displayFactor orders offset) i 0 entries

def tradeContent (entries : List SummaryEntry) (orders : List (Nat × Int)) (i : Int)
    (security : Security Qp Qo) : Option (List Trade) :=
  collect (fun e offset => e.trades security.displayFactor orders offset) i 0 entries

section Calls
variable {get : Lookup Qp Qo} {t : Nat} {entries : List SummaryEntry} {orders : List (Nat × Int)}

theorem calls_match (get : Lookup Qp Qo) (t : Nat) (entries : List SummaryEntry)
    (orders : List (Nat × Int)) :
    (PendingSummary.of t entries orders).calls get =
      match forSecurities get (mboContent entries orders)
          (fun updates => .dispatchMarketByOrder updates false)
          (entries.map SummaryEntry.securityId).eraseDups,
        forSecurities get (tradeContent entries orders) .tradeSummary
          (entries.map SummaryEntry.securityId).eraseDups with
      | some mbo, some trades => some (mbo ++ trades)
      | _, _ => none := rfl

theorem calls_eq (get : Lookup Qp Qo) (t : Nat) (entries : List SummaryEntry)
    (orders : List (Nat × Int)) :
    (PendingSummary.of t entries orders).calls get =
      (forSecurities get (mboContent entries orders)
        (fun updates => .dispatchMarketByOrder updates false)
        (entries.map SummaryEntry.securityId).eraseDups).bind fun mbo =>
          (forSecurities get (tradeContent entries orders) .tradeSummary
            (entries.map SummaryEntry.securityId).eraseDups).map fun trades => mbo ++ trades := by
  rw [calls_match]
  cases forSecurities get (mboContent entries orders) _ _ with
  | none => rfl
  | some mbo =>
    cases forSecurities get (tradeContent entries orders) _ _ with
    | none => rfl
    | some trades => rfl

theorem calls_held
    (h : ∀ q ∈ offsetsOf 0 entries, (get q.1.securityId).isSome → q.1.SameTest orders q.2) :
    (PendingSummary.of t (entries.map SummaryEntry.held) (orders.map heldOrder)).calls get =
      ((PendingSummary.of t entries orders).calls get).map (List.map Call.narrow) := by
  let ids := (entries.map SummaryEntry.securityId).eraseDups
  have hids : ((entries.map SummaryEntry.held).map SummaryEntry.securityId).eraseDups = ids := by
    rw [List.map_map]
    rfl
  have htest : ∀ i security, get i = some security → ∀ q ∈ offsetsOf 0 entries,
      i = q.1.securityId → q.1.SameTest orders q.2 := by
    intro i security hget q hq hi
    exact h q hq (by rw [← hi, hget]; rfl)
  have hmbo : forSecurities get
      (mboContent (entries.map SummaryEntry.held) (orders.map heldOrder))
      (fun updates => .dispatchMarketByOrder updates false) ids =
      (forSecurities get (mboContent entries orders)
        (fun updates => .dispatchMarketByOrder updates false) ids).map (List.map Call.narrow) := by
    refine forSecurities_held ids (fun _ => rfl) ?_
    intro i security hget
    refine collect_held entries 0 ?_
    intro q hq hi
    exact q.1.mboUpdates_held security.displayFactor orders q.2 (htest i security hget q hq hi)
  have htrades : forSecurities get
      (tradeContent (entries.map SummaryEntry.held) (orders.map heldOrder)) .tradeSummary ids =
      (forSecurities get (tradeContent entries orders) .tradeSummary ids).map
        (List.map Call.narrow) := by
    refine forSecurities_held ids (fun _ => rfl) ?_
    intro i security hget
    refine collect_held entries 0 ?_
    intro q hq hi
    exact q.1.trades_held security.displayFactor orders q.2 (htest i security hget q hq hi)
  rw [calls_eq, calls_eq, hids, hmbo, htrades]
  cases forSecurities get (mboContent entries orders) _ ids with
  | none => rfl
  | some mbo =>
    cases forSecurities get (tradeContent entries orders) _ ids with
    | none => rfl
    | some trades => simp

/-- The calls are made of what the known entries give, and their quantities are those. -/
theorem forall_calls {calls : List Call}
    (h : (PendingSummary.of t entries orders).calls get = some calls) :
    ((∀ call ∈ calls, call.Fits) ↔ ∀ q ∈ offsetsOf 0 entries, ∀ security,
      get q.1.securityId = some security →
        (∃ here, q.1.mboUpdates security.displayFactor orders q.2 = some here ∧
          ∀ u ∈ here, FitsInt32 u.quantity) ∧
        ∃ here, q.1.trades security.displayFactor orders q.2 = some here ∧
          ∀ t ∈ here, FitsInt32 t.quantity) ∧
      ∀ q ∈ offsetsOf 0 entries, ∀ security, get q.1.securityId = some security →
        (∃ here, q.1.mboUpdates security.displayFactor orders q.2 = some here) ∧
          ∃ here, q.1.trades security.displayFactor orders q.2 = some here := by
  rw [calls_eq] at h
  obtain ⟨mbo, hmbo, h⟩ := Option.bind_eq_some_iff.1 h
  obtain ⟨trades, htrades, rfl⟩ := Option.map_eq_some_iff.1 h
  have hm := fun C P => forall_pass (f := fun factor e offset => e.mboUpdates factor orders offset)
    C P hmbo
  have ht := fun C P => forall_pass (f := fun factor e offset => e.trades factor orders offset)
    C P htrades
  constructor
  · rw [List.forall_mem_append, hm Call.Fits (fun u => FitsInt32 u.quantity) fun _ _ => Iff.rfl,
      ht Call.Fits (fun t => FitsInt32 t.quantity) fun _ _ => Iff.rfl]
    constructor
    · rintro ⟨hmboFits, htradesFit⟩ q hq security hget
      exact ⟨hmboFits q hq security hget, htradesFit q hq security hget⟩
    · intro hall
      exact ⟨fun q hq security hget => (hall q hq security hget).1,
        fun q hq security hget => (hall q hq security hget).2⟩
  · intro q hq security hget
    obtain ⟨updates, hupdates, -⟩ := (hm (fun _ => True) (fun _ => True) (by simp)).1 (by simp) q hq
      security hget
    obtain ⟨items, hitems, -⟩ := (ht (fun _ => True) (fun _ => True) (by simp)).1 (by simp) q hq
      security hget
    exact ⟨⟨updates, hupdates⟩, items, hitems⟩

end Calls

/-- The orders of an entry without that of the aggressor. -/
def SummaryEntry.makers (e : SummaryEntry) (orders : List (Nat × Int)) (offset : Nat) :
    List (Nat × Int) :=
  let first := if e.aggressorSide ≠ .undefined then 1 else 0
  (orders.drop (offset + first)).take (e.numberOfOrders - first)

/-- The makers' quantities fit into 32 bits. The aggressor's differs from the size of the entry in
the lower 32 bits if it differs at all, and fits if it has a trade of its own. -/
def SummaryEntry.Carried (e : SummaryEntry) (orders : List (Nat × Int)) (offset : Nat) : Prop :=
  (∀ maker ∈ e.makers orders offset, FitsInt32 maker.2) ∧
    (e.aggressorSide ≠ .undefined → ∀ taker ∈ orders[offset]?,
      (taker.2 % 2 ^ 32 = e.size % 2 ^ 32 → taker.2 = e.size) ∧
        (e.numberOfOrders = 1 ∨ taker.2 ≠ e.size → FitsInt32 taker.2))

theorem ordersFrom_some {orders : List (Nat × Int)} {offset offset2 n : Nat}
    {result : List (Nat × Int)} (h : ordersFrom orders offset offset2 n = some result) :
    result = (orders.drop (offset + offset2)).take (n - offset2) := by
  rw [ordersFrom] at h
  split at h
  · next hn =>
    cases h
    rw [Nat.sub_eq_zero_of_le hn, List.take_zero]
  · split at h
    · cases h
      rfl
    · cases h

theorem SummaryEntry.makers_eq {e : SummaryEntry} {orders : List (Nat × Int)} {offset : Nat}
    {makers : List (Nat × Int)} (h : ordersFrom orders offset
      (if e.aggressorSide ≠ .undefined then 1 else 0) e.numberOfOrders = some makers) :
    makers = e.makers orders offset := ordersFrom_some h

theorem SummaryEntry.mboUpdates_fit_iff {e : SummaryEntry} {factor : Double}
    {orders : List (Nat × Int)} {offset : Nat} {updates : List MBOUpdate}
    (h : e.mboUpdates factor orders offset = some updates) :
    (∀ u ∈ updates, FitsInt32 u.quantity) ↔
      ∀ maker ∈ e.makers orders offset, FitsInt32 maker.2 := by
  rw [mboUpdates] at h
  by_cases ha : e.aggressorSide = .undefined
  · simp only [ha, ne_eq, not_true_eq_false, if_false] at h
    obtain ⟨makers, hmakers, rfl⟩ := Option.map_eq_some_iff.1 h
    rw [← makers_eq (e := e) (by simpa [ha] using hmakers), List.forall_mem_map]
  · simp only [ha, ne_eq, not_false_eq_true, if_true] at h
    cases htaker : orders[offset]? with
    | none =>
      rw [htaker] at h
      cases h
    | some taker =>
      simp only [htaker] at h
      obtain ⟨makers, hmakers, rfl⟩ := Option.map_eq_some_iff.1 h
      rw [← makers_eq (e := e) (by simpa [ha] using hmakers), List.forall_mem_map]

theorem SummaryEntry.trades_fit_iff {e : SummaryEntry} {factor : Double}
    {orders : List (Nat × Int)} {offset : Nat} {trades : List Trade}
    (h : e.trades factor orders offset = some trades) :
    (∀ t ∈ trades, FitsInt32 t.quantity) ↔
      (∀ maker ∈ e.makers orders offset, FitsInt32 maker.2) ∧
        (e.aggressorSide ≠ .undefined → ∀ taker ∈ orders[offset]?,
          e.numberOfOrders = 1 ∨ taker.2 ≠ e.size → FitsInt32 taker.2) := by
  rw [SummaryEntry.trades] at h
  by_cases ha : e.aggressorSide = .undefined
  · simp only [ha, ne_eq, not_true_eq_false, if_false] at h
    obtain ⟨makers, hmakers, rfl⟩ := Option.map_eq_some_iff.1 h
    rw [← makers_eq (e := e) (by simpa [ha] using hmakers), List.forall_mem_map]
    simp [ha]
  · simp only [ha, ne_eq, not_false_eq_true, if_true] at h
    cases htaker : orders[offset]? with
    | none =>
      rw [htaker] at h
      cases h
    | some taker =>
      simp only [htaker] at h
      obtain ⟨makers, hmakers, rfl⟩ := Option.map_eq_some_iff.1 h
      rw [← makers_eq (e := e) (by simpa [ha] using hmakers), List.forall_mem_append,
        List.forall_mem_map, and_comm]
      by_cases hq : taker.2 = e.size
      · by_cases hn : e.numberOfOrders = 1
        · simp [ha, hq, hn]
        · simp [ha, hq, hn]
      · simp [ha, hq]

/-- What is pending is made of the last messages, all of one transact time. -/
def MadeOfLast (received : List TradeSummary) (p : PendingSummary) : Prop :=
  ∃ t values, values <:+ received ∧ (∀ value ∈ values, value.transactTime = t) ∧
    p = .of t (entriesIn values) (ordersIn values)

theorem MadeOfLast.assemble {received : List TradeSummary} {p : PendingSummary}
    (h : MadeOfLast received p) (value : TradeSummary) :
    MadeOfLast (received ++ [value]) (p.assemble value) := by
  obtain ⟨t, values, hlast, htime, rfl⟩ := h
  by_cases ht : value.transactTime = t
  · refine ⟨t, values ++ [value], ?_, ?_, ?_⟩
    · obtain ⟨before, rfl⟩ := hlast
      exact ⟨before, by rw [List.append_assoc]⟩
    · intro v hv
      cases List.mem_append.1 hv with
      | inl hv => exact htime v hv
      | inr hv =>
        rw [List.mem_singleton.1 hv]
        exact ht
    · rw [assemble_of _ _ ht]
      simp [entriesIn, ordersIn]
  · refine ⟨value.transactTime, [value], ⟨received, rfl⟩, by simp, ?_⟩
    exact assemble_fresh_of (Or.inl ht)

theorem foldl_madeOfLast (received : List TradeSummary) :
    MadeOfLast received (received.foldl PendingSummary.next {}) := by
  have hempty : ∀ values, MadeOfLast values {} := fun values =>
    ⟨0, [], List.nil_suffix, by simp, PendingSummary.empty_eq_of⟩
  induction received using List.reverseRecOn with
  | nil => exact hempty []
  | append_singleton received value ih =>
    rw [List.foldl_append, List.foldl_cons, List.foldl_nil, PendingSummary.next]
    split
    · exact ih.assemble value
    · exact hempty _

/-- The entries of known securities in a summary, each with the place of its first order. -/
def ForKnown (get : Lookup Qp Qo) (values : List TradeSummary)
    (P : SummaryEntry → List (Nat × Int) → Nat → Prop) : Prop :=
  ∀ q ∈ offsetsOf 0 (fullEntries values), (get q.1.securityId).isSome →
    P q.1 (fullOrders values) q.2

theorem sameTest_of_carried {e : SummaryEntry} {orders : List (Nat × Int)} {offset : Nat}
    (h : e.Carried orders offset) : e.SameTest orders offset := by
  intro ha taker htaker
  rw [toInt32_eq_iff]
  exact ⟨(h.2 ha taker htaker).1, fun heq => by rw [heq]⟩

/-- The calls have the quantities of the messages, and the taker tests compare them. -/
theorem carried_iff (get : Lookup Qp Qo) (t : Nat) (values : List TradeSummary) {calls : List Call}
    (hcalls : (PendingSummary.of t (entriesIn values) (ordersIn values)).calls get = some calls) :
    ((PendingSummary.of t (fullEntries values) (fullOrders values)).calls get = some calls ∧
        ForKnown get values SummaryEntry.SameTest) ↔ ForKnown get values SummaryEntry.Carried := by
  rw [entriesIn_eq_held, ordersIn_eq_held] at hcalls
  constructor
  · rintro ⟨hfull, htests⟩ q hq hknown
    rw [calls_held htests, hfull, Option.map_some, Option.some.injEq, map_narrow_eq_self_iff] at hcalls
    obtain ⟨security, hget⟩ := Option.isSome_iff_exists.1 hknown
    obtain ⟨-, trades, htrades, hfit⟩ := (forall_calls hfull).1.1 hcalls q hq security hget
    obtain ⟨hmakers, htaker⟩ := (SummaryEntry.trades_fit_iff htrades).1 hfit
    refine ⟨hmakers, ?_⟩
    intro ha taker hmem
    have htest := htests q hq hknown ha taker hmem
    rw [toInt32_eq_iff] at htest
    exact ⟨htest.1, htaker ha taker hmem⟩
  · intro hcarried
    have htests : ForKnown get values SummaryEntry.SameTest := fun q hq hknown =>
      sameTest_of_carried (hcarried q hq hknown)
    rw [calls_held htests] at hcalls
    obtain ⟨full, hfull, rfl⟩ := Option.map_eq_some_iff.1 hcalls
    have hfits : ∀ call ∈ full, call.Fits := by
      rw [(forall_calls hfull).1]
      intro q hq security hget
      obtain ⟨⟨updates, hupdates⟩, trades, htrades⟩ := (forall_calls hfull).2 q hq security hget
      have hentry := hcarried q hq (by rw [hget]; rfl)
      refine ⟨⟨updates, hupdates, (SummaryEntry.mboUpdates_fit_iff hupdates).2 hentry.1⟩,
        trades, htrades, (SummaryEntry.trades_fit_iff htrades).2 ⟨hentry.1, ?_⟩⟩
      exact fun ha taker hmem => (hentry.2 ha taker hmem).2
    rw [(map_narrow_eq_self_iff full).2 hfits]
    exact ⟨hfull, htests⟩

/-- After any trade summaries, a message of either template. The two templates are handled alike. The
summary that the message completes is made of the last messages; its calls have the quantities of
these messages and its taker tests compare them exactly if the quantities of its known entries are
carried. Nothing is said about a summary that reads outside its orders. -/
theorem long_quantities_carried_iff (options : Options) (sd : SecurityDefinitions Qp Qo)
    (cache : Cache) (before : List TradeSummary) (value : TradeSummary) (message : Message)
    (hm : tradeSummaryOf message = some value) :
    let pending := before.foldl PendingSummary.next {}
    let r := react options sd cache pending message
    r = react options sd cache pending (.tradeSummary48 value) ∧
      r = react options sd cache pending (.tradeSummaryLongQty65 value) ∧
      ∃ t values, values <:+ before ++ [value] ∧ (∀ v ∈ values, v.transactTime = t) ∧
        pending.assemble value = .of t (entriesIn values) (ordersIn values) ∧
        (¬ (pending.assemble value).orders.length < (pending.assemble value).totalNumberOfOrders →
          r.fault = false →
          (((∃ full, (PendingSummary.of t (fullEntries values) (fullOrders values)).calls
                sd.getSecurity = some full ∧
              r.calls = reportCalls sd.getSecurity value.noMDEntries ++ full) ∧
            ForKnown sd.getSecurity values SummaryEntry.SameTest) ↔
          ForKnown sd.getSecurity values SummaryEntry.Carried)) := by
  intro pending r
  have hr : r = dispatchTradeSummary sd.getSecurity cache pending value :=
    react_tradeSummary options sd cache pending hm
  obtain ⟨t, values, hlast, htime, hp⟩ := (foldl_madeOfLast before).assemble value
  refine ⟨hr, hr, t, values, hlast, htime, hp, ?_⟩
  intro hcomplete hdefined
  rw [hr, dispatchTradeSummary] at hdefined ⊢
  simp only [hcomplete, if_false] at hdefined ⊢
  rw [hp] at hdefined ⊢
  cases hcalls : (PendingSummary.of t (entriesIn values) (ordersIn values)).calls sd.getSecurity with
  | none =>
    rw [hcalls] at hdefined
    cases hdefined
  | some calls =>
    simp only [List.append_cancel_left_eq]
    rw [← carried_iff sd.getSecurity t values hcalls]
    constructor
    · rintro ⟨⟨full, hfull, rfl⟩, htests⟩
      exact ⟨hfull, htests⟩
    · rintro ⟨hfull, htests⟩
      exact ⟨⟨calls, hfull, rfl⟩, htests⟩

theorem long_quantities_carried_two_fragments :
    let sd := summaryStart.feeds.shared.securityDefinitions
    let pending := PendingSummary.next {} firstFragment
    let r := react {} sd {} pending (.tradeSummaryLongQty65 secondFragment)
    ∃ t values, pending.assemble secondFragment = .of t (entriesIn values) (ordersIn values) ∧
      (((∃ full, (PendingSummary.of t (fullEntries values) (fullOrders values)).calls
            sd.getSecurity = some full ∧
          r.calls = reportCalls sd.getSecurity secondFragment.noMDEntries ++ full) ∧
        ForKnown sd.getSecurity values SummaryEntry.SameTest) ↔
      ForKnown sd.getSecurity values SummaryEntry.Carried) := by
  intro sd pending r
  obtain ⟨-, -, t, values, -, -, hp, h⟩ := long_quantities_carried_iff {} sd {} [firstFragment]
    secondFragment (.tradeSummaryLongQty65 secondFragment) rfl
  exact ⟨t, values, hp, h (by decide +kernel) (by decide +kernel)⟩

/-- A buyer of 2^32 + 5 whose first order is of 5, and a maker of 2^31. The buyer is taken for one with
the whole quantity, and the maker's quantity becomes negative. -/
theorem long_quantities_truncated :
    let sd := summaryStart.feeds.shared.securityDefinitions
    let value : TradeSummary :=
      ⟨100, [⟨5000000000000, 4294967301, 7, 1, 2, some 1, .buy⟩], [⟨11, 5⟩, ⟨12, 2147483648⟩]⟩
    let r := react {} sd {} {} (.tradeSummaryLongQty65 value)
    r.calls = reportCalls sd.getSecurity value.noMDEntries ++
        [⟨7, .dispatchMarketByOrder
            [⟨some 5000, -2147483648, 0, some 12, .sell, .trade⟩] false⟩,
          ⟨7, .tradeSummary [⟨.buy, some 5000, -2147483648, 1, some 11, some 12⟩]⟩] ∧
      (¬ ∃ full, (PendingSummary.of 100 (fullEntries [value]) (fullOrders [value])).calls
          sd.getSecurity = some full ∧
        r.calls = reportCalls sd.getSecurity value.noMDEntries ++ full) ∧
      toInt32 5 = toInt32 4294967301 := by
  intro sd value r
  have hfull : (PendingSummary.of 100 (fullEntries [value]) (fullOrders [value])).calls
      sd.getSecurity = some
        [⟨7, .dispatchMarketByOrder
            [⟨some 5000, 2147483648, 0, some 12, .buy, .trade⟩] false⟩,
          ⟨7, .tradeSummary [⟨.buy, some 5000, 5, 1, some 11, none⟩,
            ⟨.buy, some 5000, 2147483648, 1, none, some 12⟩]⟩] := by
    decide +kernel
  refine ⟨by decide +kernel, ?_, by decide⟩
  rintro ⟨full, hsome, hcalls⟩
  rw [hfull, Option.some.injEq] at hsome
  subst hsome
  revert hcalls
  decide +kernel

end RoqCme.MarketData
