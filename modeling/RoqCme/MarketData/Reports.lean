import RoqCme.MarketData.Incremental

/-! Which calls the handlers make for a security, template by template: one check of the
report sequence for each entry of a known security, in order. -/
namespace RoqCme.MarketData
open RoqCme.Mdp RoqCme.Tools
variable {Qp Qo : Type} {γ : Type}

/-- The entries of a message that carry a report number: security id and number. -/
def reportsOf : Message → List (Int × Nat)
  | .book46 value => value.noMDEntries.map fun item => (item.securityID, item.rptSeq)
  | .bookLongQty64 items | .volumeLongQty66 items | .limitsBanding50 items =>
    items.map fun item => (item.securityID, item.rptSeq)
  | .tradeSummary48 value | .tradeSummaryLongQty65 value =>
    value.noMDEntries.map fun item => (item.securityID, item.rptSeq)
  | .dailyStatistics49 value => value.noMDEntries.map fun item => (item.securityID, item.rptSeq)
  | .sessionStatistics51 value | .sessionStatisticsLongQty67 value =>
    value.noMDEntries.map fun item => (item.securityID, item.rptSeq)
  | .volume37 value => value.noMDEntries.map fun item => (item.securityID, item.rptSeq)
  | _ => []

/-- The reports that an observer `f` of calls sees of some entries. -/
def expected (get : Lookup Qp Qo) (f : Call → List γ) (reports : List (Int × Nat)) : List γ :=
  reports.flatMap fun r =>
    if (get r.1).isSome then f ⟨r.1, .checkReportSequence r.2⟩ else []

/-- The entries that a loop over securities looks at: it starts at security zero without a
lookup, and so passes over the entries of that security up to the first other one. -/
def visited (reports : List (Int × Nat)) : List (Int × Nat) :=
  reports.dropWhile fun r => r.1 = 0

/-- The entries whose report number is checked. -/
def checkedOf : Message → List (Int × Nat)
  | .tradeSummary48 value => reportsOf (.tradeSummary48 value)
  | .tradeSummaryLongQty65 value => reportsOf (.tradeSummaryLongQty65 value)
  | message => visited (reportsOf message)

theorem filter_visited (reports : List (Int × Nat)) {securityId : Int} (h0 : securityId ≠ 0) :
    (visited reports).filter (fun r => r.1 = securityId) =
      reports.filter fun r => r.1 = securityId := by
  induction reports with
  | nil => rfl
  | cons r reports ih =>
    by_cases hz : r.1 = 0
    · have hne : r.1 ≠ securityId := by
        rw [hz]
        exact Ne.symm h0
      rw [visited, List.dropWhile_cons_of_pos (by simpa using hz),
        List.filter_cons_of_neg (by simpa using hne)]
      exact ih
    · rw [visited, List.dropWhile_cons_of_neg (by simpa using hz)]

theorem filter_checkedOf (message : Message) {securityId : Int} (h0 : securityId ≠ 0) :
    (checkedOf message).filter (fun r => r.1 = securityId) =
      (reportsOf message).filter fun r => r.1 = securityId := by
  cases message with
  | tradeSummary48 | tradeSummaryLongQty65 => rfl
  | _ => exact filter_visited _ h0

theorem find_self {get : Lookup Qp Qo} {securityId : Int} {found : Found Qp Qo}
    (h : get.find securityId = some found) :
    found.securityId = securityId ∧ (get securityId).isSome := by
  simp only [Lookup.find, Option.map_eq_some_iff] at h
  obtain ⟨s, hs, rfl⟩ := h
  exact ⟨rfl, by rw [hs]; rfl⟩

theorem find_none {get : Lookup Qp Qo} {securityId : Int} (h : get.find securityId = none) :
    (get securityId).isSome = false := by
  rw [Lookup.find, Option.map_eq_none_iff] at h
  rw [h]
  rfl

section SecurityIterator
variable {α τ : Type} (get : Lookup Qp Qo) (securityID : α → Int)
variable (dispatch : Int → Found Qp Qo → τ → τ) (callback : Int → Found Qp Qo → α → τ → τ)

theorem SecurityIterator.enter_find (it : SecurityIterator Qp Qo τ) (securityId : Int)
    (h : it.securityId ≠ securityId ∨ it.security = get.find it.securityId) :
    let it' := SecurityIterator.enter get dispatch it securityId
    it'.securityId = securityId ∧ it'.security = get.find securityId := by
  simp only [SecurityIterator.enter]
  by_cases he : securityId = it.securityId
  · simp only [he, ne_eq, not_true_eq_false, if_false, true_and]
    exact h.resolve_left (fun hx => hx he.symm)
  · simp only [ne_eq, he, not_false_eq_true, if_true, true_and]

theorem SecurityIterator.visit_same (it : SecurityIterator Qp Qo τ) (item : α) :
    let it' := SecurityIterator.visit callback it item
    it'.securityId = it.securityId ∧ it'.security = it.security := by
  cases hs : it.security with
  | none => simp only [SecurityIterator.visit, hs, and_self]
  | some found => simp only [SecurityIterator.visit, hs, and_self]

/-- `P xs s` is what holds of the captured state `s` once the items `xs` were looked at. Both
lambdas keep it, and so do items of unknown securities. -/
structure SecurityIterator.Kept (P : List α → τ → Prop) (items : List α) : Prop where
  dispatched : ∀ i found xs t, P xs t → P xs (dispatch i found t)
  called : ∀ i found xs t, ∀ item ∈ items, found.securityId = securityID item →
    (get (securityID item)).isSome → P xs t → P (xs ++ [item]) (callback i found item t)
  passed : ∀ xs t item, (get (securityID item)).isSome = false → P xs t → P (xs ++ [item]) t

variable {get securityID dispatch callback}
variable {P : List α → τ → Prop} {items : List α}

theorem SecurityIterator.Kept.enter (h : Kept get securityID dispatch callback P items)
    (it : SecurityIterator Qp Qo τ) (securityId : Int) {xs : List α} (hp : P xs it.state) :
    P xs (SecurityIterator.enter get dispatch it securityId).state := by
  simp only [SecurityIterator.enter]
  split
  · cases it.security with
    | some found => exact h.dispatched _ found xs _ hp
    | none => exact hp
  · exact hp

theorem SecurityIterator.Kept.step (h : Kept get securityID dispatch callback P items)
    (it : SecurityIterator Qp Qo τ) {xs : List α} {item : α} (hmem : item ∈ items)
    (hit : it.securityId ≠ securityID item ∨ it.security = get.find it.securityId)
    (hp : P xs it.state) :
    let it' := SecurityIterator.step get securityID dispatch callback it item
    it'.security = get.find it'.securityId ∧ P (xs ++ [item]) it'.state := by
  obtain ⟨hid, hf⟩ := SecurityIterator.enter_find get dispatch it (securityID item) hit
  have he := h.enter it (securityID item) hp
  obtain ⟨hv1, hv2⟩ := SecurityIterator.visit_same callback
    (SecurityIterator.enter get dispatch it (securityID item)) item
  refine ⟨by rw [SecurityIterator.step, hv1, hv2, hid, hf], ?_⟩
  simp only [SecurityIterator.step, SecurityIterator.visit]
  split
  · next found hs =>
    obtain ⟨hfound, hk⟩ := find_self (hf.symm.trans hs)
    exact h.called _ found xs _ item hmem hfound hk he
  · next hs => exact h.passed xs _ item (find_none (hf.symm.trans hs)) he

theorem SecurityIterator.Kept.foldl (h : Kept get securityID dispatch callback P items)
    (ys : List α) (hsub : ∀ item ∈ ys, item ∈ items) (it : SecurityIterator Qp Qo τ)
    (hit : it.security = get.find it.securityId) {xs : List α} (hp : P xs it.state) :
    P (xs ++ ys) (ys.foldl (SecurityIterator.step get securityID dispatch callback) it).state := by
  induction ys generalizing it xs with
  | nil =>
    rw [List.append_nil]
    exact hp
  | cons item ys ih =>
    obtain ⟨hit', hp'⟩ := h.step it (hsub item (by simp)) (Or.inr hit) hp
    have hrest := ih (fun x hx => hsub x (List.mem_cons_of_mem item hx)) _ hit' hp'
    rwa [List.append_assoc, List.singleton_append] at hrest

/-- The first lookup is made at the first item that is not of security zero. -/
theorem SecurityIterator.Kept.foldl_idle (ys : List α) (s : τ)
    (h : Kept get securityID dispatch callback P (ys.dropWhile fun item => securityID item = 0))
    (h0 : P [] s) :
    P (ys.dropWhile fun item => securityID item = 0)
      (ys.foldl (SecurityIterator.step get securityID dispatch callback) { state := s }).state := by
  induction ys with
  | nil => exact h0
  | cons item ys ih =>
    by_cases hz : securityID item = 0
    · rw [List.dropWhile_cons_of_pos (by simpa using hz)] at h ⊢
      simp only [List.foldl_cons, SecurityIterator.step, SecurityIterator.enter,
        SecurityIterator.visit, hz, ne_eq, not_true_eq_false, if_false]
      exact ih h
    · rw [List.dropWhile_cons_of_neg (by simpa using hz)] at h ⊢
      obtain ⟨hit, hp⟩ := h.step { state := s } (by simp) (Or.inl (Ne.symm hz)) h0
      exact h.foldl ys (fun x hx => List.mem_cons_of_mem item hx) _ hit hp

variable (get securityID dispatch callback)

/-- The rule for loops over securities: `P xs s` is kept by both lambdas, where `xs` are the items
looked at so far. -/
theorem SecurityIterator.run_rule (P : List α → τ → Prop) (items : List α) (s : τ) (h0 : P [] s)
    (hd : ∀ i found xs t, P xs t → P xs (dispatch i found t))
    (hsome : ∀ i found xs t, ∀ item ∈ items.dropWhile fun item => securityID item = 0,
      found.securityId = securityID item → (get (securityID item)).isSome → P xs t →
      P (xs ++ [item]) (callback i found item t))
    (hnone : ∀ xs t item, (get (securityID item)).isSome = false → P xs t → P (xs ++ [item]) t) :
    P (items.dropWhile fun item => securityID item = 0)
      (SecurityIterator.run get securityID dispatch callback items s) := by
  have hrun := SecurityIterator.Kept.foldl_idle items s ⟨hd, hsome, hnone⟩ h0
  simp only [SecurityIterator.run]
  split
  · exact hd _ _ _ _ hrun
  · exact hrun

/-- What an observer `g` of the captured state sees: nothing of the dispatches, and each item
of a known security once. -/
theorem SecurityIterator.run_observed (g : τ → List γ) (seen : α → List γ)
    (hd : ∀ i found s, g (dispatch i found s) = g s)
    (hc : ∀ i found item s, found.securityId = securityID item →
      g (callback i found item s) = g s ++ seen item) (items : List α) (s : τ) :
    g (SecurityIterator.run get securityID dispatch callback items s) =
      g s ++ (items.dropWhile fun item => securityID item = 0).flatMap fun item =>
        if (get (securityID item)).isSome then seen item else [] := by
  refine SecurityIterator.run_rule get securityID dispatch callback
    (fun xs t => g t = g s ++ xs.flatMap fun item =>
      if (get (securityID item)).isSome then seen item else []) items s ?_ ?_ ?_ ?_
  · simp
  · intro i found xs t h
    rw [hd, h]
  · intro i found xs t item _ hid hk h
    rw [hc i found item t hid, h, List.flatMap_append, List.flatMap_singleton, if_pos hk,
      List.append_assoc]
  · intro xs t item hk h
    rw [h, List.flatMap_append, List.flatMap_singleton, hk]
    simp

end SecurityIterator

/-- The observer is blind to everything but report checks. -/
def Observer (f : Call → List γ) : Prop :=
  ∀ securityId action, (∀ r, action ≠ .checkReportSequence r) → f ⟨securityId, action⟩ = []

namespace Book46Loop

theorem call_calls (s : Book46Loop Qp Qo) (found : Found Qp Qo) (action : Action)
    {f : Call → List γ} (hf : Observer f) (ha : ∀ r, action ≠ .checkReportSequence r) :
    (s.call found action).calls.flatMap f = s.calls.flatMap f := by
  simp [call, hf found.securityId action ha]

theorem dispatchTopOfBook_calls (s : Book46Loop Qp Qo) (found : Found Qp Qo)
    {f : Call → List γ} (hf : Observer f) :
    (s.dispatchTopOfBook found).calls.flatMap f = s.calls.flatMap f := by
  unfold dispatchTopOfBook
  split
  · exact call_calls s found _ hf (by simp)
  · rfl

theorem dispatchPrices_calls (s : Book46Loop Qp Qo) (found : Found Qp Qo)
    {f : Call → List γ} (hf : Observer f) :
    (s.dispatchPrices found).calls.flatMap f = s.calls.flatMap f := by
  unfold dispatchPrices
  split
  · exact call_calls s found _ hf (by simp)
  · rfl

theorem dispatchOrders_calls (s : Book46Loop Qp Qo) (found : Found Qp Qo)
    {f : Call → List γ} (hf : Observer f) :
    (s.dispatchOrders found).calls.flatMap f = s.calls.flatMap f := by
  unfold dispatchOrders
  split
  · exact call_calls s found _ hf (by simp)
  · rfl

theorem dispatch_calls (s : Book46Loop Qp Qo) {f : Call → List γ} (hf : Observer f) :
    s.dispatch.calls.flatMap f = s.calls.flatMap f := by
  unfold dispatch
  cases s.security with
  | none => rfl
  | some found =>
    simp only
    rw [dispatchOrders_calls _ found hf, dispatchPrices_calls _ found hf,
      dispatchTopOfBook_calls _ found hf]

theorem enter_find (get : Lookup Qp Qo) (s : Book46Loop Qp Qo) (securityId : Int)
    (h : s.securityId ≠ securityId ∨ s.security = get.find s.securityId) :
    (s.enter get securityId).securityId = securityId ∧
      (s.enter get securityId).security = get.find securityId := by
  unfold enter
  by_cases he : securityId = s.securityId
  · rw [if_neg (by simpa using he)]
    refine ⟨he.symm, ?_⟩
    rw [he]
    exact h.resolve_left (fun hx => hx he.symm)
  · rw [if_pos he]
    exact ⟨rfl, rfl⟩

theorem enter_calls (get : Lookup Qp Qo) (s : Book46Loop Qp Qo) (securityId : Int)
    {f : Call → List γ} (hf : Observer f) :
    (s.enter get securityId).calls.flatMap f = s.calls.flatMap f := by
  unfold enter
  split
  · exact dispatch_calls s hf
  · rfl

theorem flag_same (s : Book46Loop Qp Qo) (item : Book46.Entry) :
    (s.flag item).securityId = s.securityId ∧ (s.flag item).security = s.security ∧
      (s.flag item).calls = s.calls := by
  unfold flag
  split
  · exact ⟨rfl, rfl, rfl⟩
  · exact ⟨rfl, rfl, rfl⟩

theorem report_same (s : Book46Loop Qp Qo) (item : Book46.Entry) :
    (s.report item).securityId = s.securityId ∧ (s.report item).security = s.security := by
  unfold report
  split
  · exact ⟨rfl, rfl⟩
  · exact ⟨rfl, rfl⟩

theorem report_calls (get : Lookup Qp Qo) (s : Book46Loop Qp Qo) (item : Book46.Entry)
    (hp : s.security = get.find item.securityID) (f : Call → List γ) :
    (s.report item).calls.flatMap f = s.calls.flatMap f ++
      if (get item.securityID).isSome then f ⟨item.securityID, .checkReportSequence item.rptSeq⟩
      else [] := by
  cases hs : s.security with
  | some found =>
    obtain ⟨hf', hk⟩ := find_self (hp.symm.trans hs)
    simp [report, hs, call, hf', hk]
  | none =>
    have hn := find_none (hp.symm.trans hs)
    simp [report, hs, hn]

theorem remember_same (options : Options) (s : Book46Loop Qp Qo) (item : Book46.Entry) :
    (s.remember options item).securityId = s.securityId ∧
      (s.remember options item).security = s.security ∧
      (s.remember options item).calls = s.calls := by
  simp only [remember]
  split
  · exact ⟨rfl, rfl, rfl⟩
  · exact ⟨rfl, rfl, rfl⟩

theorem emplaceBack_same (s : Book46Loop Qp Qo) (item : Book46.Entry) (security : Security Qp Qo) :
    (s.emplaceBack item security).securityId = s.securityId ∧
      (s.emplaceBack item security).security = s.security ∧
      (s.emplaceBack item security).calls = s.calls := by
  unfold emplaceBack
  cases item.mDEntryType with
  | bid | offer | impliedBid | impliedOffer | bookReset | marketBestOffer | marketBestBid | null =>
    exact ⟨rfl, rfl, rfl⟩

theorem collect_same (options : Options) (s : Book46Loop Qp Qo) (item : Book46.Entry) :
    (s.collect options item).securityId = s.securityId ∧
      (s.collect options item).security = s.security ∧
      (s.collect options item).calls = s.calls := by
  unfold collect
  cases hs : s.security with
  | none => exact ⟨rfl, hs, rfl⟩
  | some found =>
    obtain ⟨h1, h2, h3⟩ := s.emplaceBack_same item found.security
    exact ⟨h1, h2.trans hs, h3⟩

/-- An entry moves the loop to its security and adds one report check if that is known. -/
theorem process_reports (options : Options) (get : Lookup Qp Qo) (s : Book46Loop Qp Qo)
    (item : Book46.Entry)
    (hp : s.securityId ≠ item.securityID ∨ s.security = get.find s.securityId)
    {f : Call → List γ} (hf : Observer f) :
    (s.process options get item).security = get.find (s.process options get item).securityId ∧
      (s.process options get item).calls.flatMap f = s.calls.flatMap f ++
        if (get item.securityID).isSome then f ⟨item.securityID, .checkReportSequence item.rptSeq⟩
        else [] := by
  obtain ⟨hid, he⟩ := enter_find get s item.securityID hp
  obtain ⟨hf1, hf2, hf3⟩ := flag_same (s.enter get item.securityID) item
  obtain ⟨hr1, hr2⟩ := report_same ((s.enter get item.securityID).flag item) item
  obtain ⟨hm1, hm2, hm3⟩ := remember_same options
    (((s.enter get item.securityID).flag item).report item) item
  obtain ⟨hc1, hc2, hc3⟩ := collect_same options
    ((((s.enter get item.securityID).flag item).report item).remember options item) item
  have hrep := report_calls get ((s.enter get item.securityID).flag item) item (hf2.trans he) f
  unfold process
  constructor
  · rw [hc1, hc2, hm1, hm2, hr1, hr2, hf1, hf2, hid, he]
  · rw [hc3, hm3, hrep, hf3, enter_calls get s item.securityID hf]

/-- Before the first lookup an entry of security zero leads to nothing. -/
theorem process_idle (options : Options) (get : Lookup Qp Qo) (s : Book46Loop Qp Qo)
    (item : Book46.Entry) (hid : s.securityId = 0) (hs : s.security = none)
    (hz : item.securityID = 0) :
    (s.process options get item).securityId = 0 ∧ (s.process options get item).security = none ∧
      (s.process options get item).calls = s.calls := by
  have henter : s.enter get item.securityID = s := by
    rw [enter, if_neg]
    rw [hid, hz]
    exact fun hx => hx rfl
  obtain ⟨hf1, hf2, hf3⟩ := flag_same s item
  have hreport : (s.flag item).report item = s.flag item := by
    unfold report
    rw [hf2, hs]
  obtain ⟨hm1, hm2, hm3⟩ := remember_same options (s.flag item) item
  obtain ⟨hc1, hc2, hc3⟩ := collect_same options ((s.flag item).remember options item) item
  unfold process
  rw [henter, hreport]
  exact ⟨by rw [hc1, hm1, hf1, hid], by rw [hc2, hm2, hf2, hs], by rw [hc3, hm3, hf3]⟩

theorem run_reports (options : Options) (get : Lookup Qp Qo) (items : List Book46.Entry)
    {f : Call → List γ} (hf : Observer f) :
    (run options get items).calls.flatMap f =
      expected get f (visited (items.map fun item => (item.securityID, item.rptSeq))) := by
  have hfold : ∀ (xs : List Book46.Entry) (s : Book46Loop Qp Qo),
      s.security = get.find s.securityId →
      (xs.foldl (process options get) s).calls.flatMap f = s.calls.flatMap f ++
        expected get f (xs.map fun item => (item.securityID, item.rptSeq)) := by
    intro xs
    induction xs with
    | nil => intro s _; simp [expected]
    | cons item xs ih =>
      intro s hp
      obtain ⟨hp', hc⟩ := process_reports options get s item (Or.inr hp) hf
      rw [List.foldl_cons, ih _ hp', hc, List.append_assoc]
      rfl
  have hidle : ∀ s : Book46Loop Qp Qo, s.securityId = 0 → s.security = none → s.calls = [] →
      (items.foldl (process options get) s).calls.flatMap f =
        expected get f (visited (items.map fun item => (item.securityID, item.rptSeq))) := by
    induction items with
    | nil => intro s _ _ hc; simp [visited, expected, hc]
    | cons item items ih =>
      intro s hid hs hc
      rw [List.foldl_cons, List.map_cons, visited]
      by_cases hz : item.securityID = 0
      · obtain ⟨hid', hs', hc'⟩ := process_idle options get s item hid hs hz
        rw [List.dropWhile_cons_of_pos (by simpa using hz)]
        exact ih _ hid' hs' (hc'.trans hc)
      · obtain ⟨hp', hcalls⟩ := process_reports options get s item
          (Or.inl (by rw [hid]; exact Ne.symm hz)) hf
        rw [List.dropWhile_cons_of_neg (by simpa using hz), hfold items _ hp', hcalls, hc]
        rfl
  rw [run, dispatch_calls _ hf, hidle {} rfl rfl rfl]

section Orders
variable {I : List MBOUpdate → List Call → Prop} {options : Options}
  (hcall : ∀ orders calls i action, action.site ≠ .dispatchMarketByOrder → I orders calls →
    I orders (calls ++ [⟨i, action⟩]))
  (horders : ∀ orders calls i, orders ≠ [] → I orders calls →
    I [] (calls ++ [⟨i, .dispatchMarketByOrder orders false⟩]))

include hcall horders in
theorem dispatch_orders_calls {s : Book46Loop Qp Qo} (h : I s.orders s.calls) :
    I s.dispatch.orders s.dispatch.calls := by
  unfold dispatch
  cases s.security with
  | none => exact h
  | some found =>
    have htop : I (s.dispatchTopOfBook found).orders (s.dispatchTopOfBook found).calls := by
      unfold dispatchTopOfBook
      split
      · exact hcall _ _ _ _ nofun h
      · exact h
    have hprices : I ((s.dispatchTopOfBook found).dispatchPrices found).orders
        ((s.dispatchTopOfBook found).dispatchPrices found).calls := by
      unfold dispatchPrices
      split
      · exact hcall _ _ _ _ nofun htop
      · exact htop
    simp only [dispatchOrders]
    split
    · next hne => exact horders _ _ _ hne hprices
    · exact hprices

variable (hclear : ∀ orders calls item (security : Security Qp Qo), I orders calls →
  I (orders ++ clearPriceLevel options item security) calls)

include hcall horders hclear in
theorem process_orders_calls (get : Lookup Qp Qo) {s : Book46Loop Qp Qo} (h : I s.orders s.calls)
    (item : Book46.Entry) :
    I (s.process options get item).orders (s.process options get item).calls := by
  have henter : I (s.enter get item.securityID).orders (s.enter get item.securityID).calls := by
    unfold enter
    split
    · exact dispatch_orders_calls hcall horders h
    · exact h
  have hflag : I ((s.enter get item.securityID).flag item).orders
      ((s.enter get item.securityID).flag item).calls := by
    unfold flag
    split
    · exact henter
    · exact henter
  have hreport : I (((s.enter get item.securityID).flag item).report item).orders
      (((s.enter get item.securityID).flag item).report item).calls := by
    unfold report
    split
    · exact hcall _ _ _ _ nofun hflag
    · exact hflag
  have hremember : I
      ((((s.enter get item.securityID).flag item).report item).remember options item).orders
      ((((s.enter get item.securityID).flag item).report item).remember options item).calls := by
    simp only [remember]
    split
    · exact hreport
    · exact hreport
  unfold process collect
  split
  · next found hs =>
    have hsame : ∀ t : Book46Loop Qp Qo, (t.emplaceBack item found.security).orders = t.orders := by
      intro t
      unfold emplaceBack
      cases item.mDEntryType with
      | bid | offer | impliedBid | impliedOffer | bookReset | marketBestOffer | marketBestBid
      | null => rfl
    simp only [hsame, (emplaceBack_same _ item found.security).2.2]
    exact hclear _ _ item found.security hremember
  · exact hremember

include hcall horders hclear in
/-- The orders that the loop keeps and the calls it makes: it adds calls that are not about orders,
hands the orders on, and adds the updates that clear a price level. -/
theorem run_orders_calls (hstart : I [] []) (get : Lookup Qp Qo) (items : List Book46.Entry) :
    I (run options get items).orders (run options get items).calls := by
  apply dispatch_orders_calls hcall horders
  refine List.foldlRecOn (motive := fun s : Book46Loop Qp Qo => I s.orders s.calls) items _ hstart ?_
  intro s hs item _
  exact process_orders_calls hcall horders hclear get hs item

end Orders
end Book46Loop

namespace Order46Loop

/-- The order entries only lead to order updates. -/
def Updates (s : Order46Loop Qp Qo) : Prop :=
  ∀ c ∈ s.calls, ∃ orders isSnapshot, c.action = .dispatchMarketByOrder orders isSnapshot

theorem dispatch_updates (b : Bool) (s : Order46Loop Qp Qo) (h : s.Updates) :
    (s.dispatch b).Updates := by
  unfold dispatch
  cases s.security with
  | none => exact h
  | some found =>
    simp only
    split
    · exact h
    · intro c hc
      cases List.mem_append.1 hc with
      | inl hc => exact h c hc
      | inr hc => rw [List.mem_singleton.1 hc]; exact ⟨s.orders, b, rfl⟩

theorem enter_updates (get : Lookup Qp Qo) (b : Bool) (s : Order46Loop Qp Qo) (securityId : Int)
    (h : s.Updates) : (s.enter get b securityId).Updates := by
  unfold enter
  split
  · exact dispatch_updates b s h
  · exact h

theorem process_updates (get : Lookup Qp Qo) (mdEntries : List MdEntry) (b : Bool)
    (s : Order46Loop Qp Qo) (item : Book46.OrderEntry) (h : s.Updates) :
    (s.process get mdEntries b item).Updates := by
  simp only [process]
  split
  · exact h
  · split
    · exact h
    · next entry _ =>
      have he := enter_updates get b s entry.securityId h
      unfold collect
      split
      · exact he
      · exact he

theorem run_updates (get : Lookup Qp Qo) (mdEntries : List MdEntry) (b : Bool)
    (orders : List MBOUpdate) (items : List Book46.OrderEntry) :
    (run get mdEntries b orders items).Updates := by
  apply dispatch_updates
  have hfold : ∀ s : Order46Loop Qp Qo, s.Updates →
      (items.foldl (process get mdEntries b) s).Updates := by
    induction items with
    | nil => intro s h; exact h
    | cons item items ih =>
      intro s h
      exact ih _ (process_updates get mdEntries b s item h)
  exact hfold _ (fun c hc => by cases hc)

end Order46Loop

theorem Observer.eq_nil {f : Call → List γ} (hf : Observer f) (calls : List Call)
    (h : ∀ c ∈ calls, ∀ r, c.action ≠ .checkReportSequence r) : calls.flatMap f = [] := by
  rw [List.flatMap_eq_nil_iff]
  intro c hc
  exact hf c.securityId c.action (h c hc)

/-- The calls at the end of a template 47 event. -/
theorem flush47_updates (get : Lookup Qp Qo) (orders47 : List Order47) (ids : List Int)
    (orders : List MBOUpdate) :
    ∀ c ∈ (flush47 get orders47 ids orders).2,
      ∃ orders', c.action = .dispatchOrderBook47 orders' := by
  induction ids generalizing orders with
  | nil => intro c hc; cases hc
  | cons securityId ids ih =>
    simp only [flush47]
    split
    · intro c hc
      cases List.mem_cons.1 hc with
      | inl hc => rw [hc]; exact ⟨_, rfl⟩
      | inr hc => exact ih [] c hc
    · exact ih orders

theorem orderBook47_updates (options : Options) (sd : SecurityDefinitions Qp Qo) (cache : Cache)
    (pending : PendingSummary) (value : OrderBook47) :
    ∀ c ∈ (react options sd cache pending (.orderBook47 value)).calls,
      ∃ orders, c.action = .dispatchOrderBook47 orders := by
  intro c hc
  simp only [react, orderBook47] at hc
  split at hc
  · split at hc
    · cases hc
    · exact flush47_updates _ _ _ _ c hc
  · cases hc

theorem forSecurities_action {δ : Type} (get : Lookup Qp Qo)
    (content : Int → Security Qp Qo → Option (List δ)) (action : List δ → Action) (ids : List Int)
    (calls : List Call) (h : forSecurities get content action ids = some calls) :
    ∀ c ∈ calls, ∃ items, items ≠ [] ∧ c.action = action items := by
  induction ids generalizing calls with
  | nil =>
    simp only [forSecurities, Option.some.injEq] at h
    subst h
    intro c hc
    cases hc
  | cons securityId ids ih =>
    cases hg : get securityId with
    | none =>
      simp only [forSecurities, hg] at h
      exact ih calls h
    | some security =>
      cases hl : forSecurities get content action ids with
      | none => simp only [forSecurities, hg, hl, reduceCtorEq] at h
      | some later =>
        simp only [forSecurities, hg, hl, Option.map_eq_some_iff] at h
        obtain ⟨items, -, rfl⟩ := h
        intro c hc
        by_cases he : items = []
        · rw [if_pos he] at hc
          exact ih later hl c hc
        · rw [if_neg he] at hc
          cases List.mem_cons.1 hc with
          | inl hc => rw [hc]; exact ⟨items, he, rfl⟩
          | inr hc => exact ih later hl c hc

/-- A complete summary leads to order updates and trades. -/
theorem PendingSummary.calls_action (get : Lookup Qp Qo) (p : PendingSummary) (calls : List Call)
    (h : p.calls get = some calls) :
    ∀ c ∈ calls, (∃ orders, orders ≠ [] ∧ c.action = .dispatchMarketByOrder orders false) ∨
      ∃ trades, c.action = .tradeSummary trades := by
  simp only [PendingSummary.calls] at h
  split at h
  · next mbo trades hm ht =>
    simp only [Option.some.injEq] at h
    subst h
    intro c hc
    cases List.mem_append.1 hc with
    | inl hc => exact Or.inl (forSecurities_action get _ _ _ mbo hm c hc)
    | inr hc =>
      obtain ⟨items, -, he⟩ := forSecurities_action get _ _ _ trades ht c hc
      exact Or.inr ⟨items, he⟩
  · cases h

theorem reportCalls_action (get : Lookup Qp Qo) (items : List TradeSummary.Entry) :
    ∀ c ∈ reportCalls get items, ∃ r, c.action = .checkReportSequence r := by
  intro c hc
  obtain ⟨item, -, hm⟩ := List.mem_flatMap.1 hc
  split at hm
  · rw [List.mem_singleton.1 hm]
    exact ⟨_, rfl⟩
  · cases hm

theorem dispatchTradeSummary_action (get : Lookup Qp Qo) (cache : Cache)
    (pending : PendingSummary) (value : TradeSummary) :
    ∀ c ∈ (dispatchTradeSummary get cache pending value).calls,
      (∃ r, c.action = .checkReportSequence r) ∨
        (∃ orders, orders ≠ [] ∧ c.action = .dispatchMarketByOrder orders false) ∨
        ∃ trades, c.action = .tradeSummary trades := by
  intro c hc
  simp only [dispatchTradeSummary] at hc
  split at hc
  · exact Or.inl (reportCalls_action get _ c hc)
  · split at hc
    · next calls hcalls =>
      cases List.mem_append.1 hc with
      | inl hc => exact Or.inl (reportCalls_action get _ c hc)
      | inr hc => exact Or.inr (PendingSummary.calls_action get _ calls hcalls c hc)
    · exact Or.inl (reportCalls_action get _ c hc)

theorem reportCalls_reports (get : Lookup Qp Qo) (items : List TradeSummary.Entry)
    (f : Call → List γ) : (reportCalls get items).flatMap f =
      expected get f (items.map fun item => (item.securityID, item.rptSeq)) := by
  induction items with
  | nil => rfl
  | cons item items ih =>
    have hcons : reportCalls get (item :: items) =
        (if (get item.securityID).isSome then
          [⟨item.securityID, .checkReportSequence item.rptSeq⟩] else []) ++
          reportCalls get items := rfl
    rw [hcons, List.flatMap_append, ih]
    simp only [expected, List.map_cons, List.flatMap_cons]
    split
    · simp
    · rfl

theorem dispatchTradeSummary_reports (get : Lookup Qp Qo) (cache : Cache)
    (pending : PendingSummary) (value : TradeSummary) {f : Call → List γ} (hf : Observer f) :
    (dispatchTradeSummary get cache pending value).calls.flatMap f =
      expected get f (value.noMDEntries.map fun item => (item.securityID, item.rptSeq)) := by
  simp only [dispatchTradeSummary]
  split
  · exact reportCalls_reports get _ f
  · split
    · next calls hcalls =>
      have hnone : calls.flatMap f = [] := by
        apply hf.eq_nil
        intro c hc r he
        cases PendingSummary.calls_action get _ calls hcalls c hc with
        | inl h => obtain ⟨_, _, h⟩ := h; rw [h] at he; cases he
        | inr h => obtain ⟨_, h⟩ := h; rw [h] at he; cases he
      rw [List.flatMap_append, hnone, List.append_nil]
      exact reportCalls_reports get _ f
    · exact reportCalls_reports get _ f

theorem expected_visited {α : Type} (get : Lookup Qp Qo) (f : Call → List γ)
    (securityID : α → Int) (rptSeq : α → Nat) (items : List α) :
    expected get f (visited (items.map fun item => (securityID item, rptSeq item))) =
      (items.dropWhile fun item => securityID item = 0).flatMap fun item =>
        if (get (securityID item)).isSome then
          f ⟨securityID item, .checkReportSequence (rptSeq item)⟩ else [] := by
  rw [expected, visited, List.dropWhile_map, List.flatMap_map]
  rfl

theorem reportOnly_reports (get : Lookup Qp Qo) (cache : Cache) (pending : PendingSummary)
    (items : List ReportEntry) (f : Call → List γ) :
    (reportOnly get cache pending items).calls.flatMap f =
      expected get f (visited (items.map fun item => (item.securityID, item.rptSeq))) := by
  rw [expected_visited]
  refine (SecurityIterator.run_observed get ReportEntry.securityID _ _
    (fun calls : List Call => calls.flatMap f)
    (fun item => f ⟨item.securityID, .checkReportSequence item.rptSeq⟩) ?_ ?_ items []).trans ?_
  · intro i found s
    rfl
  · intro i found item s hid
    simp only [List.flatMap_append, List.flatMap_cons, List.flatMap_nil, List.append_nil, hid]
  · rfl

theorem reportOnly_action (get : Lookup Qp Qo) (cache : Cache) (pending : PendingSummary)
    (items : List ReportEntry) :
    ∀ c ∈ (reportOnly get cache pending items).calls, ∃ r, c.action = .checkReportSequence r := by
  refine SecurityIterator.run_rule get ReportEntry.securityID _ _
    (fun _ (calls : List Call) => ∀ c ∈ calls, ∃ r, c.action = .checkReportSequence r)
    items [] ?_ ?_ ?_ ?_
  · intro c hc
    cases hc
  · intro i found _ t ht
    exact ht
  · intro i found _ t item _ _ _ ht c hc
    cases List.mem_append.1 hc with
    | inl hc => exact ht c hc
    | inr hc =>
      rw [List.mem_singleton.1 hc]
      exact ⟨_, rfl⟩
  · intro _ t item _ ht
    exact ht

theorem dispatchStatistics_reports {τ : Type} (get : Lookup Qp Qo) (cache : Cache)
    (pending : PendingSummary) (callback : StatisticsEntry τ → Security Qp Qo → Statistics)
    (value : StatisticsMessage τ) {f : Call → List γ} (hf : Observer f) :
    (dispatchStatistics get cache pending callback value).calls.flatMap f =
      expected get f
        (visited (value.noMDEntries.map fun item => (item.securityID, item.rptSeq))) := by
  rw [expected_visited]
  refine (SecurityIterator.run_observed get StatisticsEntry.securityID _ _
    (fun s : List Statistics × List Call => s.2.flatMap f)
    (fun item => f ⟨item.securityID, .checkReportSequence item.rptSeq⟩) ?_ ?_
    value.noMDEntries ([], [])).trans ?_
  · intro i found s
    split
    · rfl
    · rw [List.flatMap_append, List.flatMap_singleton, hf _ _ (by simp), List.append_nil]
  · intro i found item s hid
    simp only [List.flatMap_append, List.flatMap_cons, hid]
    split
    · simp only [List.flatMap_cons, List.flatMap_nil, hf _ (.dispatchMarketByPrice [] [] true)
        (by simp), hf _ (.dispatchMarketByOrder [] true) (by simp), List.append_nil]
    · simp only [List.flatMap_nil, List.append_nil]
  · rfl

/-- A market status leads to nothing but market status. -/
theorem statusCall_action {found : Option (Security Qp Qo)} {securityId : Int}
    {newStatus : TradingStatus} {c : Call}
    (h : c ∈ match found with
      | some _ => [(⟨securityId, .marketStatus newStatus⟩ : Call)]
      | none => []) : ∃ status, c.action = .marketStatus status := by
  cases found with
  | none => cases h
  | some _ =>
    rw [List.mem_singleton.1 h]
    exact ⟨_, rfl⟩

theorem securityStatus30_calls (sd : SecurityDefinitions Qp Qo) (cache : Cache)
    (pending : PendingSummary) (value : SecurityStatus30) :
    ∀ c ∈ (securityStatus30 sd cache pending value).calls,
      ∃ status, c.action = .marketStatus status := by
  intro c hc
  simp only [securityStatus30, List.mem_append] at hc
  cases hc with
  | inl hc =>
    split at hc
    · exact statusCall_action hc
    · cases hc
  | inr hc =>
    split at hc
    · obtain ⟨securityId, -, hm⟩ := List.mem_flatMap.1 hc
      exact statusCall_action hm
    · cases hc

theorem instrumentDefinition_calls (sd : SecurityDefinitions Qp Qo) (cache : Cache)
    (pending : PendingSummary) (value : InstrumentDefinition) :
    ∀ c ∈ (instrumentDefinition sd cache pending value).calls,
      c = ⟨value.securityID, .referenceData value⟩ := by
  intro c hc
  simp only [instrumentDefinition] at hc
  split at hc
  · split at hc
    · cases hc
    · exact List.mem_singleton.1 hc
  · split at hc
    · exact List.mem_singleton.1 hc
    · cases hc

/-- One report check for each entry of a known security, whatever the template. -/
theorem react_reports (options : Options) (sd : SecurityDefinitions Qp Qo) (cache : Cache)
    (pending : PendingSummary) (message : Message) {f : Call → List γ} (hf : Observer f) :
    (react options sd cache pending message).calls.flatMap f =
      expected sd.getSecurity f (checkedOf message) := by
  cases message with
  | adminHeartbeat12 | channelReset4 | quoteRequest39 => rfl
  | snapshotFullRefresh52 | snapshotFullRefreshLongQty69 | snapshotFullRefreshOrderBook53 => rfl
  | securityStatus30 value =>
    apply hf.eq_nil
    intro c hc r he
    obtain ⟨status, hs⟩ := securityStatus30_calls sd cache pending value c hc
    rw [hs] at he
    cases he
  | instrumentDefinition value =>
    apply hf.eq_nil
    intro c hc r he
    rw [instrumentDefinition_calls sd cache pending value c hc] at he
    cases he
  | book46 value =>
    simp only [react, book46]
    split
    · have hnone : (Order46Loop.run sd.getSecurity
          (Book46Loop.run options sd.getSecurity value.noMDEntries).mdEntries
          (Book46Loop.run options sd.getSecurity value.noMDEntries).isSnapshotWorkaround
          cache.orders value.noOrderIDEntries).calls.flatMap f = [] := by
        apply hf.eq_nil
        intro c hc r he
        obtain ⟨_, _, h⟩ := Order46Loop.run_updates _ _ _ _ _ c hc
        rw [h] at he
        cases he
      rw [List.flatMap_append, hnone, List.append_nil]
      exact Book46Loop.run_reports options sd.getSecurity _ hf
    · exact Book46Loop.run_reports options sd.getSecurity _ hf
  | bookLongQty64 items | volumeLongQty66 items | limitsBanding50 items =>
    exact reportOnly_reports sd.getSecurity cache pending items f
  | orderBook47 value =>
    apply hf.eq_nil
    intro c hc r he
    obtain ⟨_, h⟩ := orderBook47_updates options sd cache pending value c hc
    rw [h] at he
    cases he
  | tradeSummary48 value | tradeSummaryLongQty65 value =>
    exact dispatchTradeSummary_reports sd.getSecurity cache pending value hf
  | dailyStatistics49 value | sessionStatistics51 value | sessionStatisticsLongQty67 value
  | volume37 value =>
    exact dispatchStatistics_reports sd.getSecurity cache pending _ value hf

end RoqCme.MarketData
