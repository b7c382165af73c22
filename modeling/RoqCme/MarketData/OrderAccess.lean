import RoqCme.MarketData.SummaryOrders

/-! The accesses to `orders_` when a trade summary is complete. The guard compares totals only, and the
order of an aggressor is read before its count is looked at. -/
namespace RoqCme.MarketData
open RoqCme.Lib RoqCme.Mdp RoqCme.Tools
variable {Qp Qo : Type}

/-- `for (; i < n; ++i)` over size_t: the values of `i` in the body, or nothing if the loop is still
running after `fuel` tests. -/
def countUp : Nat → Nat → Nat → Option (List Nat)
  | 0, _, _ => none
  | fuel + 1, i, n => if i < n then (countUp fuel (u64 (i + 1)) n).map (i :: ·) else some []

/-- A counter below a size_t does not wrap, so the loop ends. -/
theorem countUp_ends (fuel i n : Nat) (hn : n < 2 ^ 64) (h : n - i < fuel) :
    countUp fuel i n = some (List.range' i (n - i)) := by
  induction fuel generalizing i with
  | zero => omega
  | succ fuel ih =>
    rw [countUp]
    by_cases hi : i < n
    · have hnext : u64 (i + 1) = i + 1 := Nat.mod_eq_of_lt (by omega)
      have hlen : n - i = (n - (i + 1)) + 1 := by omega
      rw [if_pos hi, hnext, ih (i + 1) (by omega), hlen, List.range'_succ]
      rfl
    · rw [if_neg hi, Nat.sub_eq_zero_of_le (by omega)]
      rfl

/-- The indices that the loops read for one entry, the taker's first. -/
def SummaryEntry.reads (e : SummaryEntry) (offset fuel : Nat) : Option (List Nat) :=
  if e.aggressorSide ≠ .undefined then
    (countUp fuel 1 e.numberOfOrders).map fun rounds =>
      u64 offset :: rounds.map fun offset2 => u64 (offset + offset2)
  else
    (countUp fuel 0 e.numberOfOrders).map fun rounds =>
      rounds.map fun offset2 => u64 (offset + offset2)

/-- The entries with the offsets that the loops have when they come to them. -/
def offsetsOf : Nat → List SummaryEntry → List (SummaryEntry × Nat)
  | _, [] => []
  | offset, e :: rest => (e, offset) :: offsetsOf (u64 (offset + e.numberOfOrders)) rest

/-- Every loop ends and every index is one of an order that has arrived. -/
def PendingSummary.Safe (get : Lookup Qp Qo) (p : PendingSummary) : Prop :=
  ∀ q ∈ offsetsOf 0 p.tradeSummary, (get q.1.securityId).isSome →
    ∃ fuel reads, q.1.reads q.2 fuel = some reads ∧ ∀ i ∈ reads, i < p.orders.length

theorem countUp_eq {fuel i n : Nat} {rounds : List Nat} (hn : n < 2 ^ 64)
    (h : countUp fuel i n = some rounds) : rounds = List.range' i (n - i) := by
  induction fuel generalizing i rounds with
  | zero => cases h
  | succ fuel ih =>
    rw [countUp] at h
    split at h
    · next hi =>
      have hnext : u64 (i + 1) = i + 1 := Nat.mod_eq_of_lt (by omega)
      have hlen : n - i = (n - (i + 1)) + 1 := by omega
      rw [hnext] at h
      obtain ⟨later, hlater, rfl⟩ := Option.map_eq_some_iff.1 h
      rw [ih hlater, hlen, List.range'_succ]
    · next hi =>
      cases h
      rw [Nat.sub_eq_zero_of_le (by omega)]
      rfl

/-- The indices in closed form. -/
def SummaryEntry.indices (e : SummaryEntry) (offset : Nat) : List Nat :=
  if e.aggressorSide ≠ .undefined then
    u64 offset :: (List.range' 1 (e.numberOfOrders - 1)).map fun offset2 => u64 (offset + offset2)
  else (List.range' 0 e.numberOfOrders).map fun offset2 => u64 (offset + offset2)

theorem SummaryEntry.reads_iff {e : SummaryEntry} (hn : e.numberOfOrders < 2 ^ 64)
    (offset length : Nat) :
    (∃ fuel reads, e.reads offset fuel = some reads ∧ ∀ i ∈ reads, i < length) ↔
      ∀ i ∈ e.indices offset, i < length := by
  constructor
  · rintro ⟨fuel, reads, hreads, hrange⟩
    have heq : reads = e.indices offset := by
      rw [SummaryEntry.reads] at hreads
      rw [indices]
      split at hreads
      · next ha =>
        obtain ⟨rounds, hrounds, rfl⟩ := Option.map_eq_some_iff.1 hreads
        rw [if_pos ha, countUp_eq hn hrounds]
      · next ha =>
        obtain ⟨rounds, hrounds, rfl⟩ := Option.map_eq_some_iff.1 hreads
        rw [if_neg ha, countUp_eq hn hrounds, Nat.sub_zero]
    rw [← heq]
    exact hrange
  · intro hrange
    refine ⟨e.numberOfOrders + 1, e.indices offset, ?_, hrange⟩
    rw [SummaryEntry.reads, indices, countUp_ends _ _ _ hn (by omega),
      countUp_ends _ _ _ hn (by omega)]
    split
    · rfl
    · rfl

/-- The rounds of a loop stay within the orders if the slice does. -/
theorem rounds_lt {offset start n length : Nat} (h : offset + n ≤ length) :
    ∀ i ∈ (List.range' start (n - start)).map fun offset2 => u64 (offset + offset2), i < length := by
  intro i hi
  obtain ⟨k, hk, rfl⟩ := List.mem_map.1 hi
  rw [List.mem_range'_1] at hk
  exact lt_of_le_of_lt (Nat.mod_le _ _) (by omega)

theorem SummaryEntry.reads_safe {e : SummaryEntry} (he : e.TakerCounted) {offset length : Nat}
    (hn : e.numberOfOrders < 2 ^ 64) (h : offset + e.numberOfOrders ≤ length) :
    ∃ fuel reads, e.reads offset fuel = some reads ∧ ∀ i ∈ reads, i < length := by
  rw [reads_iff hn, indices]
  split
  · next ha =>
    have htaker := he ha
    intro i hi
    cases List.mem_cons.1 hi with
    | inl hi =>
      rw [hi]
      exact lt_of_le_of_lt (Nat.mod_le _ _) (by omega)
    | inr hi => exact rounds_lt h i hi
  · exact rounds_lt h

/-- An aggressor's order, or the first of several, is read in any case. -/
theorem SummaryEntry.offset_mem_reads {e : SummaryEntry} {offset fuel : Nat} {reads : List Nat}
    (h : e.reads offset fuel = some reads)
    (hread : e.aggressorSide ≠ .undefined ∨ 0 < e.numberOfOrders) : u64 offset ∈ reads := by
  rw [SummaryEntry.reads] at h
  split at h
  · obtain ⟨rounds, -, rfl⟩ := Option.map_eq_some_iff.1 h
    exact List.mem_cons_self
  · next ha =>
    obtain ⟨rounds, hrounds, rfl⟩ := Option.map_eq_some_iff.1 h
    have hpos : 0 < e.numberOfOrders := hread.resolve_left ha
    cases fuel with
    | zero => cases hrounds
    | succ fuel =>
      rw [countUp, if_pos hpos] at hrounds
      obtain ⟨later, -, rfl⟩ := Option.map_eq_some_iff.1 hrounds
      exact List.mem_cons_self

/-- A loop that starts within the orders and leaves them passes their end. -/
theorem ordersFrom_isSome_iff {orders : List (Nat × Int)} {offset start n : Nat}
    (hlength : orders.length < 2 ^ 64) (hstart : start ≤ orders.length - offset)
    (hoffset : offset ≤ orders.length) :
    (ordersFrom orders offset start n).isSome ↔
      ∀ i ∈ (List.range' start (n - start)).map fun offset2 => u64 (offset + offset2),
        i < orders.length := by
  rw [ordersFrom]
  by_cases hempty : n ≤ start
  · simp [hempty, Nat.sub_eq_zero_of_le hempty]
  · rw [if_neg hempty]
    by_cases hfits : offset + n ≤ orders.length
    · rw [if_pos hfits]
      exact iff_of_true rfl (rounds_lt hfits)
    · rw [if_neg hfits]
      refine iff_of_false (by simp) ?_
      intro hall
      have hpast := hall (u64 (offset + (orders.length - offset)))
        (List.mem_map_of_mem (by rw [List.mem_range'_1]; omega))
      rw [Nat.add_sub_cancel' hoffset, u64, Nat.mod_eq_of_lt hlength] at hpast
      omega

/-- The model takes a slice of the orders exactly where the loops stay within them. -/
theorem SummaryEntry.mboUpdates_isSome_iff (e : SummaryEntry) (factor : Double)
    (orders : List (Nat × Int)) {offset : Nat} (hoffset : offset < 2 ^ 64)
    (hn : e.numberOfOrders < 2 ^ 64) (hlength : orders.length < 2 ^ 64) :
    (e.mboUpdates factor orders offset).isSome ↔
      ∃ fuel reads, e.reads offset fuel = some reads ∧ ∀ i ∈ reads, i < orders.length := by
  have hu : u64 offset = offset := Nat.mod_eq_of_lt hoffset
  rw [reads_iff hn, indices]
  by_cases ha : e.aggressorSide = .undefined
  · have hupdates : (e.mboUpdates factor orders offset).isSome =
        (ordersFrom orders offset 0 e.numberOfOrders).isSome := by
      simp [SummaryEntry.mboUpdates, ha]
    rw [hupdates, if_neg (not_not.2 ha)]
    by_cases hin : offset ≤ orders.length
    · exact ordersFrom_isSome_iff hlength (Nat.zero_le _) hin
    · by_cases hzero : e.numberOfOrders = 0
      · simp [ordersFrom, hzero]
      · refine iff_of_false ?_ ?_
        · rw [ordersFrom, if_neg (by omega), if_neg (by omega)]
          simp
        · intro hall
          have hfirst := hall (u64 (offset + 0))
            (List.mem_map_of_mem (by rw [List.mem_range'_1]; omega))
          rw [Nat.add_zero, hu] at hfirst
          omega
  · rw [if_pos ha, List.forall_mem_cons, hu]
    by_cases hin : offset < orders.length
    · have hupdates : (e.mboUpdates factor orders offset).isSome =
          (ordersFrom orders offset 1 e.numberOfOrders).isSome := by
        simp [SummaryEntry.mboUpdates, ha, List.getElem?_eq_getElem hin]
      rw [hupdates, ordersFrom_isSome_iff hlength (by omega) hin.le]
      exact (and_iff_right hin).symm
    · have hupdates : e.mboUpdates factor orders offset = none := by
        simp [SummaryEntry.mboUpdates, ha, List.getElem?_eq_none (Nat.le_of_not_lt hin)]
      rw [hupdates]
      exact iff_of_false (by simp) (fun h => hin h.1)

theorem mem_offsetsOf {entries : List SummaryEntry} {offset : Nat}
    (h : offset + ordersAsked entries < 2 ^ 64) {q : SummaryEntry × Nat}
    (hq : q ∈ offsetsOf offset entries) :
    q.1 ∈ entries ∧ q.2 + q.1.numberOfOrders ≤ offset + ordersAsked entries := by
  induction entries generalizing offset with
  | nil => cases hq
  | cons e entries ih =>
    rw [ordersAsked, List.map_cons, List.sum_cons, ← ordersAsked] at h ⊢
    cases List.mem_cons.1 hq with
    | inl hq =>
      subst hq
      refine ⟨List.mem_cons_self, ?_⟩
      simp only
      omega
    | inr hq =>
      have hnext : u64 (offset + e.numberOfOrders) = offset + e.numberOfOrders :=
        Nat.mod_eq_of_lt (by omega)
      rw [hnext] at hq
      obtain ⟨hmem, hle⟩ := ih (by omega) hq
      exact ⟨List.mem_cons_of_mem e hmem, by omega⟩

theorem safe_of (get : Lookup Qp Qo) (t : Nat) {entries : List SummaryEntry}
    {orders : List (Nat × Int)} (hcount : ordersAsked entries ≤ orders.length)
    (hsize : ordersAsked entries < 2 ^ 64) (htaker : ∀ e ∈ entries, e.TakerCounted) :
    (PendingSummary.of t entries orders).Safe get := by
  intro q hq _
  have hq : q ∈ offsetsOf 0 entries := hq
  obtain ⟨hmem, hle⟩ := mem_offsetsOf (by omega) hq
  have hlen : q.2 + q.1.numberOfOrders ≤ orders.length := by omega
  exact SummaryEntry.reads_safe (htaker q.1 hmem) (by omega) hlen

/-- The message finds a total that does not wrap, and counts the order of every aggressor. A negative
count is the size_t that it is converted to. -/
def Countable (p : PendingSummary) (value : TradeSummary) : Prop :=
  ordersAsked (p.since value.transactTime).tradeSummary + ordersAsked (entriesIn [value]) < 2 ^ 64 ∧
    ∀ e ∈ entriesIn [value], e.TakerCounted

instance (p : PendingSummary) (value : TradeSummary) : Decidable (Countable p value) :=
  inferInstanceAs (Decidable (_ ∧ _))

/-- What is pending was counted, and waits for orders. -/
def Counted (p : PendingSummary) : Prop :=
  ∃ t entries orders, p = .of t entries orders ∧ ordersAsked entries < 2 ^ 64 ∧
    ∀ e ∈ entries, e.TakerCounted

theorem counted_empty : Counted {} := ⟨0, [], [], PendingSummary.empty_eq_of, by decide, by simp⟩

theorem Counted.assemble {p : PendingSummary} (h : Counted p) {value : TradeSummary}
    (hc : Countable p value) : Counted (p.assemble value) := by
  obtain ⟨t, entries, orders, rfl, hsize, htaker⟩ := h
  obtain ⟨hasked, hnew⟩ := hc
  by_cases ht : value.transactTime = t
  · have hsince : (PendingSummary.of t entries orders).since value.transactTime =
        .of t entries orders := if_pos ht
    rw [hsince] at hasked
    refine ⟨t, _, _, assemble_of entries orders ht, ?_, ?_⟩
    · rw [ordersAsked_append]
      exact hasked
    · intro e he
      cases List.mem_append.1 he with
      | inl he => exact htaker e he
      | inr he => exact hnew e he
  · exact ⟨_, _, _, assemble_fresh_of (Or.inl ht), by omega, hnew⟩

theorem Counted.next {p : PendingSummary} {value : TradeSummary} (h : Counted p)
    (hc : Countable p value) : Counted (p.next value) := by
  rw [PendingSummary.next]
  split
  · exact h.assemble hc
  · exact counted_empty

/-- In every sequence of trade summaries, of either template and however fragmented, whose messages
are all countable: when a summary is complete, every loop over its orders ends and every access is to
an order that has arrived. -/
theorem summary_accesses_in_range (values : List TradeSummary)
    (h : Along PendingSummary.next Countable values {}) (before after : List TradeSummary)
    (value : TradeSummary) (hv : values = before ++ value :: after) (get : Lookup Qp Qo)
    (cache : Cache) :
    let pending := before.foldl PendingSummary.next {}
    (¬ (pending.assemble value).orders.length < (pending.assemble value).totalNumberOfOrders →
        (pending.assemble value).Safe get) ∧
      (dispatchTradeSummary get cache pending value).fault = false := by
  intro pending
  rw [hv, along_append] at h
  obtain ⟨hbefore, hc, -⟩ := h
  have hpending : Counted pending :=
    Along.run_inv Counted (fun p value hp hc => hp.next hc) counted_empty hbefore
  obtain ⟨t, entries, orders, hq, hsize, htaker⟩ := hpending.assemble hc
  have hu : (PendingSummary.of t entries orders).totalNumberOfOrders = ordersAsked entries :=
    Nat.mod_eq_of_lt hsize
  have horders : (PendingSummary.of t entries orders).orders = orders := rfl
  constructor
  · rw [hq, hu, horders]
    intro hcomplete
    exact safe_of get t (by omega) hsize htaker
  · by_cases hcomplete : ordersAsked entries ≤ orders.length
    · rw [dispatchTradeSummary_complete get cache hq hcomplete hsize htaker]
    · have hlt : orders.length < ordersAsked entries := by omega
      rw [dispatchTradeSummary]
      simp only [hq, hu, horders, hlt, if_true]

theorem summary_accesses_in_range_sample :
    (dispatchTradeSummary (fun _ => none : Lookup Unit Unit) {} {} TradeSummary.sample).fault =
      false :=
  (summary_accesses_in_range [TradeSummary.sample] (by decide +kernel) [] [] TradeSummary.sample rfl
    (fun _ => none) {}).2

/-- An aggressor without orders: the first order is read though there is none. Counts of -1 and 1:
the total wraps to zero, and the loop goes past the end. -/
theorem summary_accesses_out_of_range :
    let get : Lookup Unit Unit := fun _ => some (newSecurity () () "CME" "ESZ5" (some 1) false)
    let noOrder : TradeSummary := ⟨1, [⟨5000000000000, 5, 7, 1, 0, some 10, .buy⟩], []⟩
    let wrapped : TradeSummary :=
      ⟨1, [⟨5000000000000, 5, 7, 1, -1, some 10, .noAggressor⟩,
        ⟨5000000000000, 5, 7, 2, 1, some 11, .noAggressor⟩], []⟩
    (¬ (PendingSummary.assemble {} noOrder).orders.length <
        (PendingSummary.assemble {} noOrder).totalNumberOfOrders ∧
      ¬ (PendingSummary.assemble {} noOrder).Safe get) ∧
    ¬ (PendingSummary.assemble {} wrapped).orders.length <
        (PendingSummary.assemble {} wrapped).totalNumberOfOrders ∧
      ¬ (PendingSummary.assemble {} wrapped).Safe get := by
  intro get noOrder wrapped
  refine ⟨⟨by decide +kernel, ?_⟩, by decide +kernel, ?_⟩
  · intro h
    obtain ⟨fuel, reads, hreads, hrange⟩ := h
      (SummaryEntry.ofItem ⟨5000000000000, 5, 7, 1, 0, some 10, .buy⟩, 0) (by decide +kernel) rfl
    have hfirst := hrange _ (SummaryEntry.offset_mem_reads hreads (by decide))
    revert hfirst
    decide +kernel
  · intro h
    obtain ⟨fuel, reads, hreads, hrange⟩ := h
      (SummaryEntry.ofItem ⟨5000000000000, 5, 7, 1, -1, some 10, .noAggressor⟩, 0)
      (by decide +kernel) rfl
    have hfirst := hrange _ (SummaryEntry.offset_mem_reads hreads (by decide +kernel))
    revert hfirst
    decide +kernel

end RoqCme.MarketData
