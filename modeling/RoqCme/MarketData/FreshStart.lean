import RoqCme.MarketData.BookReplay

/-! A stream that starts with report number 1 needs no recovery feed: that message is to submit
a price snapshot. Statistics always do so, template 46 only together with a price level of the
security, and the other templates never. -/
namespace RoqCme.MarketData
open RoqCme.Lib RoqCme.Mdp RoqCme.Tools
variable {Qp Qo : Type}

def Effect.isMbpSnapshot : Effect → Bool
  | .submitMbp _ _ (.snapshot true) => true
  | _ => false

/-- The delivery submits a price snapshot for the security. -/
def Feeds.submitsMbpSnapshot (env : Env Qp Qo) (f : Feeds Qp Qo) (d : Delivery)
    (securityId : Int) : Bool :=
  (f.recordsOf env d securityId).any fun r => r.effects.any Effect.isMbpSnapshot

def Action.isMbpSnapshot : Action → Bool
  | .dispatchMarketByPrice _ _ true => true
  | _ => false

def Call.isMbpSnapshot (securityId : Int) (call : Call) : Bool :=
  decide (call.securityId = securityId) && call.action.isMbpSnapshot

/-- A price level for the bids or the asks. -/
def isPriceLevel (item : Book46.Entry) : Bool :=
  item.mDEntryType = .bid ∨ item.mDEntryType = .offer

/-- Among consecutive entries of the security one has report number 1 and one is a price level. -/
def StartsIn (securityId : Int) (items : List Book46.Entry) : Prop :=
  ∃ block, block <:+: items ∧ (∀ e ∈ block, e.securityID = securityId) ∧
    (∃ e ∈ block, e.rptSeq = 1) ∧ ∃ e ∈ block, isPriceLevel e = true

/-- The messages that start the price book of a security. -/
def StartsBook (securityId : Int) : Message → Prop
  | .book46 value => StartsIn securityId (value.noMDEntries.dropWhile fun e => e.securityID = 0)
  | .dailyStatistics49 value => (securityId, 1) ∈ checkedOf (.dailyStatistics49 value)
  | .sessionStatistics51 value => (securityId, 1) ∈ checkedOf (.sessionStatistics51 value)
  | .sessionStatisticsLongQty67 value =>
    (securityId, 1) ∈ checkedOf (.sessionStatisticsLongQty67 value)
  | .volume37 value => (securityId, 1) ∈ checkedOf (.volume37 value)
  | _ => False

theorem Echo.not_mbpSnapshot {book : Book} {e : Effect} (h : Echo book e) :
    e.isMbpSnapshot = false := by
  cases h with
  | price | order | mark | clear => rfl

theorem any_isMbpSnapshot_false {effects : List Effect}
    (h : ∀ e ∈ effects, e.isMbpSnapshot = false) : effects.any Effect.isMbpSnapshot = false := by
  rw [List.any_eq_false]
  intro e he
  rw [h e he]
  exact Bool.false_ne_true

/-- A price update is a snapshot exactly when it is dispatched as one. -/
theorem dispatchMarketByPrice_isMbpSnapshot (env : Env Qp Qo) (ctx : Context)
    (bids asks : List MBPUpdate) (isSnapshot : Bool) (s : Security Qp Qo) :
    (dispatchMarketByPrice env ctx bids asks isSnapshot s).2.any Effect.isMbpSnapshot =
      isSnapshot := by
  obtain ⟨echoes, hecho, heq⟩ := dispatchMarketByPrice_eq env ctx bids asks isSnapshot s
  have hrest : ∀ e ∈ echoes, e.isMbpSnapshot = false := fun e he => (hecho e he).not_mbpSnapshot
  rw [heq, List.any_cons, any_isMbpSnapshot_false hrest, Bool.or_false]
  cases isSnapshot with
  | true => rfl
  | false => rfl

theorem dispatchMarketByOrder_not_mbpSnapshot (env : Env Qp Qo) (ctx : Context)
    (orders : List MBOUpdate) (isSnapshot : Bool) (s : Security Qp Qo) :
    (dispatchMarketByOrder env ctx orders isSnapshot s).2.any Effect.isMbpSnapshot = false := by
  apply any_isMbpSnapshot_false
  intro e he
  cases dispatchMarketByOrder_effects env ctx orders isSnapshot s e he with
  | inl he =>
    obtain ⟨_, _, _, rfl⟩ := he
    rfl
  | inr he => exact he.not_mbpSnapshot

/-- Only a price snapshot call submits a price snapshot. -/
theorem op_isMbpSnapshot (env : Env Qp Qo) (ctx : Context) (a : Action) (s : Security Qp Qo) :
    (a.op env ctx s).2.any Effect.isMbpSnapshot = a.isMbpSnapshot := by
  cases a with
  | dispatchMarketByPrice bids asks isSnapshot =>
    refine (dispatchMarketByPrice_isMbpSnapshot env ctx bids asks isSnapshot s).trans ?_
    cases isSnapshot with
    | true => rfl
    | false => rfl
  | dispatchMarketByOrder orders isSnapshot =>
    exact dispatchMarketByOrder_not_mbpSnapshot env ctx orders isSnapshot s
  | dispatchOrderBook47 orders => exact dispatchMarketByOrder_not_mbpSnapshot env ctx orders _ s
  | checkReportSequence r =>
    simp only [Action.op, checkReportSequence]
    split
    · rfl
    · rfl
  | referenceData value =>
    simp only [Action.op]
    split
    · rfl
    · rfl
  | _ => rfl

theorem performAll_any (env : Env Qp Qo) (ctx : Context) (calls : List Call)
    (shared : Shared Qp Qo) (securityId : Int) (s : Security Qp Qo)
    (hs : (shared.view securityId).security = some s) :
    ∃ records, ((performAll env ctx calls shared).view securityId).records =
        (shared.view securityId).records ++ records ∧
      records.any (fun r => r.effects.any Effect.isMbpSnapshot) =
        calls.any (Call.isMbpSnapshot securityId) := by
  obtain ⟨records, hrecords, hmap⟩ := performAll_records
    (fun r => r.effects.any Effect.isMbpSnapshot) Action.isMbpSnapshot env ctx calls shared
    securityId s hs (op_isMbpSnapshot env ctx)
  refine ⟨records, hrecords, ?_⟩
  have hany := congrArg (fun flags => flags.any id) hmap
  simp only [List.any_map, List.any_filter, Function.id_comp] at hany
  exact hany

namespace Book46Loop
variable (securityId : Int)

/-- The loop has made a price snapshot call for the security. -/
def hit (s : Book46Loop Qp Qo) : Bool :=
  s.calls.any (Call.isMbpSnapshot securityId)

/-- There are price levels to dispatch. -/
def Priced (s : Book46Loop Qp Qo) : Prop :=
  s.bids ≠ [] ∨ s.asks ≠ []

instance (s : Book46Loop Qp Qo) : Decidable s.Priced :=
  inferInstanceAs (Decidable (s.bids ≠ [] ∨ s.asks ≠ []))

theorem call_hit (s : Book46Loop Qp Qo) (found : Found Qp Qo) (action : Action) :
    (s.call found action).hit securityId =
      (s.hit securityId || Call.isMbpSnapshot securityId ⟨found.securityId, action⟩) := by
  simp [hit, call]

/-- What is dispatched at the end of a block of entries. -/
theorem dispatch_hit (s : Book46Loop Qp Qo) :
    s.dispatch.hit securityId = (s.hit securityId || s.security.any fun found =>
      decide (found.securityId = securityId) && s.isSnapshot && decide s.Priced) := by
  unfold dispatch
  cases s.security with
  | none => simp
  | some found =>
    have htop : (s.dispatchTopOfBook found).hit securityId = s.hit securityId ∧
        (s.dispatchTopOfBook found).bids = s.bids ∧ (s.dispatchTopOfBook found).asks = s.asks ∧
        (s.dispatchTopOfBook found).isSnapshot = s.isSnapshot := by
      unfold dispatchTopOfBook
      split
      · exact ⟨by simp [hit, call, Call.isMbpSnapshot, Action.isMbpSnapshot], rfl, rfl, rfl⟩
      · exact ⟨rfl, rfl, rfl, rfl⟩
    have horders : ∀ t : Book46Loop Qp Qo,
        (t.dispatchOrders found).hit securityId = t.hit securityId := by
      intro t
      unfold dispatchOrders
      split
      · simp [hit, call, Call.isMbpSnapshot, Action.isMbpSnapshot]
      · rfl
    obtain ⟨h1, h2, h3, h4⟩ := htop
    rw [horders, Option.any_some]
    unfold dispatchPrices
    rw [h2, h3, h4]
    by_cases hp : s.bids ≠ [] ∨ s.asks ≠ []
    · have hpriced : s.Priced := hp
      rw [if_pos hp]
      have hcall := call_hit securityId (s.dispatchTopOfBook found) found
        (.dispatchMarketByPrice s.bids s.asks s.isSnapshot)
      rw [h1] at hcall
      refine hcall.trans ?_
      cases s.isSnapshot with
      | true => simp [Call.isMbpSnapshot, Action.isMbpSnapshot, hpriced]
      | false => simp [Call.isMbpSnapshot, Action.isMbpSnapshot]
    · have hpriced : ¬ s.Priced := hp
      rw [if_neg hp, h1]
      simp [hpriced]

theorem dispatch_empty {s : Book46Loop Qp Qo}
    (h : s.security = none → s.bids = [] ∧ s.asks = []) :
    s.dispatch.bids = [] ∧ s.dispatch.asks = [] := by
  unfold dispatch
  cases hs : s.security with
  | none => exact h hs
  | some found =>
    have horders : ∀ t : Book46Loop Qp Qo, (t.dispatchOrders found).bids = t.bids ∧
        (t.dispatchOrders found).asks = t.asks := by
      intro t
      unfold dispatchOrders
      split
      · exact ⟨rfl, rfl⟩
      · exact ⟨rfl, rfl⟩
    rw [(horders _).1, (horders _).2]
    unfold dispatchPrices
    split
    · exact ⟨rfl, rfl⟩
    · next hp =>
      simp only [not_or, not_not] at hp
      exact hp

/-- The parts of the loop that decide about price snapshots. -/
structure SamePrices (s t : Book46Loop Qp Qo) : Prop where
  securityId : t.securityId = s.securityId
  security : t.security = s.security
  bids : t.bids = s.bids
  asks : t.asks = s.asks

theorem flag_spec (t : Book46Loop Qp Qo) (item : Book46.Entry) :
    SamePrices t (t.flag item) ∧ (t.flag item).calls = t.calls ∧
      (t.flag item).isSnapshot = (t.isSnapshot || decide (item.rptSeq = 1)) := by
  unfold flag
  split
  · next h => exact ⟨⟨rfl, rfl, rfl, rfl⟩, rfl, by simp [h]⟩
  · next h => exact ⟨⟨rfl, rfl, rfl, rfl⟩, rfl, by simp [h]⟩

theorem report_spec (t : Book46Loop Qp Qo) (item : Book46.Entry) :
    SamePrices t (t.report item) ∧ (t.report item).hit securityId = t.hit securityId ∧
      (t.report item).isSnapshot = t.isSnapshot := by
  unfold report
  split
  · refine ⟨⟨rfl, rfl, rfl, rfl⟩, ?_, rfl⟩
    rw [call_hit]
    simp [Call.isMbpSnapshot, Action.isMbpSnapshot]
  · exact ⟨⟨rfl, rfl, rfl, rfl⟩, rfl, rfl⟩

theorem remember_spec (options : Options) (t : Book46Loop Qp Qo) (item : Book46.Entry) :
    SamePrices t (t.remember options item) ∧ (t.remember options item).calls = t.calls ∧
      (t.remember options item).isSnapshot = t.isSnapshot := by
  unfold remember
  simp only
  split
  · exact ⟨⟨rfl, rfl, rfl, rfl⟩, rfl, rfl⟩
  · exact ⟨⟨rfl, rfl, rfl, rfl⟩, rfl, rfl⟩

theorem emplaceBack_priced (t : Book46Loop Qp Qo) (item : Book46.Entry)
    (security : Security Qp Qo) :
    (t.emplaceBack item security).Priced ↔ t.Priced ∨ isPriceLevel item = true := by
  unfold emplaceBack
  cases ht : item.mDEntryType with
  | bid | offer => simp [Priced, isPriceLevel, ht]
  | _ => simp [Priced, isPriceLevel, ht]

/-- Entries of an unknown security are not collected. -/
theorem collect_prices (options : Options) (t : Book46Loop Qp Qo) (item : Book46.Entry) :
    (t.collect options item).securityId = t.securityId ∧
      (t.collect options item).security = t.security ∧
      (t.collect options item).calls = t.calls ∧
      (t.collect options item).isSnapshot = t.isSnapshot ∧
      (t.security = none → t.collect options item = t) ∧
      (t.security.isSome → ((t.collect options item).Priced ↔
        t.Priced ∨ isPriceLevel item = true)) := by
  cases hs : t.security with
  | none =>
    have hsame : t.collect options item = t := by simp only [collect, hs]
    rw [hsame]
    refine ⟨rfl, hs, rfl, rfl, fun _ => rfl, ?_⟩
    intro h
    cases h
  | some found =>
    have hback : (t.emplaceBack item found.security).securityId = t.securityId ∧
        (t.emplaceBack item found.security).security = t.security ∧
        (t.emplaceBack item found.security).calls = t.calls ∧
        (t.emplaceBack item found.security).isSnapshot = t.isSnapshot := by
      unfold emplaceBack
      simp only
      split
      · exact ⟨rfl, rfl, rfl, rfl⟩
      · exact ⟨rfl, rfl, rfl, rfl⟩
      · exact ⟨rfl, rfl, rfl, rfl⟩
      · exact ⟨rfl, rfl, rfl, rfl⟩
      · exact ⟨rfl, rfl, rfl, rfl⟩
    simp only [collect, hs]
    refine ⟨hback.1, hback.2.1.trans hs, hback.2.2.1, hback.2.2.2, ?_, ?_⟩
    · intro h
      cases h
    · intro _
      exact emplaceBack_priced t item found.security

/-- What one entry adds once the loop is at its security. -/
theorem collect_spec (options : Options) (t : Book46Loop Qp Qo) (item : Book46.Entry) :
    let u := (((t.flag item).report item).remember options item).collect options item
    u.securityId = t.securityId ∧ u.security = t.security ∧
      u.isSnapshot = (t.isSnapshot || decide (item.rptSeq = 1)) ∧
      u.hit securityId = t.hit securityId ∧
      (t.security = none → u.bids = t.bids ∧ u.asks = t.asks) ∧
      (t.security.isSome → (u.Priced ↔ t.Priced ∨ isPriceLevel item = true)) := by
  intro u
  obtain ⟨hf, hfc, hfs⟩ := flag_spec t item
  obtain ⟨hr, hrh, hrs⟩ := report_spec securityId (t.flag item) item
  obtain ⟨hm, hmc, hms⟩ := remember_spec options ((t.flag item).report item) item
  obtain ⟨c1, c2, c3, c4, c5, c6⟩ := collect_prices options
    (((t.flag item).report item).remember options item) item
  have hsec : (((t.flag item).report item).remember options item).security = t.security :=
    hm.security.trans (hr.security.trans hf.security)
  have hbids : (((t.flag item).report item).remember options item).bids = t.bids :=
    hm.bids.trans (hr.bids.trans hf.bids)
  have hasks : (((t.flag item).report item).remember options item).asks = t.asks :=
    hm.asks.trans (hr.asks.trans hf.asks)
  refine ⟨c1.trans (hm.securityId.trans (hr.securityId.trans hf.securityId)), c2.trans hsec,
    c4.trans (hms.trans (hrs.trans hfs)), ?_, ?_, ?_⟩
  · have hcalls : u.hit securityId = ((t.flag item).report item).hit securityId := by
      simp only [hit, u, c3, hmc]
    rw [hcalls, hrh, hit, hfc, hit]
  · intro hnone
    have hu : u = ((t.flag item).report item).remember options item := c5 (hsec.trans hnone)
    rw [hu]
    exact ⟨hbids, hasks⟩
  · intro hsome
    refine (c6 (by rw [hsec]; exact hsome)).trans ?_
    simp only [Priced, hbids, hasks]

/-- The loop is in a block of entries of one security, of which it has seen `block`. -/
structure Reading (get : Lookup Qp Qo) (s : Book46Loop Qp Qo) (block : List Book46.Entry) :
    Prop where
  same : ∀ e ∈ block, e.securityID = s.securityId
  security : s.security = get.find s.securityId
  idle : s.security = none → s.bids = [] ∧ s.asks = []
  flagged : s.isSnapshot = true ↔ ∃ e ∈ block, e.rptSeq = 1
  priced : s.security.isSome → (s.Priced ↔ ∃ e ∈ block, isPriceLevel e = true)

/-- One more entry of the same block. -/
theorem Reading.collect {get : Lookup Qp Qo} {s : Book46Loop Qp Qo} {block : List Book46.Entry}
    (h : Reading get s block) (options : Options) {item : Book46.Entry}
    (hid : item.securityID = s.securityId) :
    let u := (((s.flag item).report item).remember options item).collect options item
    Reading get u (block ++ [item]) ∧ u.securityId = s.securityId ∧
      u.hit securityId = s.hit securityId := by
  intro u
  obtain ⟨h1, h2, h3, h4, h5, h6⟩ := collect_spec securityId options s item
  refine ⟨⟨?_, ?_, ?_, ?_, ?_⟩, h1, h4⟩
  · intro e he
    rw [h1]
    cases List.mem_append.1 he with
    | inl he => exact h.same e he
    | inr he =>
      rw [List.mem_singleton.1 he]
      exact hid
  · rw [h1, h2]
    exact h.security
  · intro hnone
    rw [h2] at hnone
    rw [(h5 hnone).1, (h5 hnone).2]
    exact h.idle hnone
  · rw [h3, Bool.or_eq_true, h.flagged, decide_eq_true_eq]
    simp [or_and_right, exists_or]
  · intro hsome
    rw [h2] at hsome
    rw [h6 hsome, h.priced hsome]
    simp [or_and_right, exists_or]

/-- The first entry of the next block; the end of the last block is dispatched. -/
theorem Reading.next (get : Lookup Qp Qo) {s : Book46Loop Qp Qo} (options : Options)
    {item : Book46.Entry} (hid : item.securityID ≠ s.securityId)
    (hidle : s.security = none → s.bids = [] ∧ s.asks = []) :
    let u := process options get s item
    Reading get u [item] ∧ u.securityId = item.securityID ∧
      u.hit securityId = s.dispatch.hit securityId := by
  intro u
  have henter : s.enter get item.securityID = { s.dispatch with
      securityId := item.securityID, security := get.find item.securityID, isSnapshot := false } := by
    rw [enter, if_pos hid]
  obtain ⟨hb, ha⟩ := dispatch_empty hidle
  have hread : Reading get (s.enter get item.securityID) [] := by
    rw [henter]
    refine ⟨?_, rfl, fun _ => ⟨hb, ha⟩, ?_, ?_⟩
    · intro e he
      cases he
    · simp
    · intro _
      simp [Priced, hb, ha]
  have hsec : (s.enter get item.securityID).securityId = item.securityID := by rw [henter]
  obtain ⟨h1, h2, h3⟩ := hread.collect securityId options hsec.symm
  refine ⟨h1, h2.trans hsec, h3.trans ?_⟩
  rw [henter]
  rfl

end Book46Loop

/-- A block of entries of one security does not reach over an entry of another one. -/
theorem startsIn_append {securityId : Int} {block items : List Book46.Entry} {i : Int}
    (hsame : ∀ e ∈ block, e.securityID = i) (hnext : ∀ e ∈ items.head?, e.securityID ≠ i) :
    StartsIn securityId (block ++ items) ↔ StartsIn securityId block ∨ StartsIn securityId items := by
  constructor
  · rintro ⟨l, ⟨pre, post, he⟩, hl, hflag, hprice⟩
    rw [List.append_assoc, List.append_eq_append_iff] at he
    obtain ⟨a, hblock, hrest⟩ | ⟨c, -, hitems⟩ := he
    · rw [List.append_eq_append_iff] at hrest
      obtain ⟨b, ha, -⟩ | ⟨b, hla, hitems⟩ := hrest
      · refine Or.inl ⟨l, ⟨pre, b, ?_⟩, hl, hflag, hprice⟩
        rw [hblock, ha, List.append_assoc]
      · -- a part of the block and the head of the items would be of one security
        cases b with
        | nil =>
          refine Or.inl ⟨l, ⟨pre, [], ?_⟩, hl, hflag, hprice⟩
          rw [hla, hblock]
          simp
        | cons e b =>
          cases a with
          | nil =>
            refine Or.inr ⟨l, ⟨[], post, ?_⟩, hl, hflag, hprice⟩
            rw [hla, hitems]
            simp
          | cons e' a =>
            have hi : e'.securityID = i := hsame e' (by rw [hblock]; simp)
            have hx : e'.securityID = securityId := hl e' (by rw [hla]; simp)
            have hx' : e.securityID = securityId := hl e (by rw [hla]; simp)
            have hne := hnext e (by rw [hitems]; simp)
            exact absurd (hx'.trans (hx.symm.trans hi)) hne
    · refine Or.inr ⟨l, ⟨c, post, ?_⟩, hl, hflag, hprice⟩
      rw [hitems, List.append_assoc]
  · rintro (⟨l, hinfix, h⟩ | ⟨l, hinfix, h⟩)
    · exact ⟨l, hinfix.trans List.infix_append_left, h⟩
    · exact ⟨l, hinfix.trans List.infix_append_right, h⟩

theorem startsIn_block {securityId i : Int} {block : List Book46.Entry}
    (hsame : ∀ e ∈ block, e.securityID = i) :
    StartsIn securityId block ↔ i = securityId ∧ (∃ e ∈ block, e.rptSeq = 1) ∧
      ∃ e ∈ block, isPriceLevel e = true := by
  constructor
  · rintro ⟨l, hinfix, hl, ⟨e, he, h1⟩, ⟨e', he', h2⟩⟩
    have hmem := hinfix.subset he
    refine ⟨?_, ⟨e, hmem, h1⟩, ⟨e', hinfix.subset he', h2⟩⟩
    rw [← hsame e hmem]
    exact hl e he
  · rintro ⟨rfl, hflag, hprice⟩
    exact ⟨block, List.infix_refl _, hsame, hflag, hprice⟩

namespace Book46Loop
variable (securityId : Int)

theorem Reading.dispatch_hit_iff {get : Lookup Qp Qo} {s : Book46Loop Qp Qo}
    {block : List Book46.Entry} (h : Reading get s block) (hx : (get.find securityId).isSome) :
    s.dispatch.hit securityId = true ↔ s.hit securityId = true ∨ StartsIn securityId block := by
  rw [dispatch_hit, Bool.or_eq_true, startsIn_block h.same]
  refine or_congr_right ?_
  cases hs : s.security with
  | none =>
    simp only [Option.any_none, Bool.false_eq_true, false_iff]
    rintro ⟨rfl, -⟩
    rw [← h.security, hs] at hx
    cases hx
  | some found =>
    obtain ⟨hid, -⟩ := find_self (h.security.symm.trans hs)
    simp only [Option.any_some, Bool.and_eq_true, decide_eq_true_eq, hid, h.flagged,
      h.priced (by rw [hs]; rfl), and_assoc]

/-- One entry after the other: a price snapshot is dispatched at the end of each block that
starts the book. -/
theorem Reading.foldl_hit_iff (options : Options) {get : Lookup Qp Qo}
    (hx : (get.find securityId).isSome) {items : List Book46.Entry} {s : Book46Loop Qp Qo}
    {block : List Book46.Entry} (h : Reading get s block) :
    (items.foldl (process options get) s).dispatch.hit securityId = true ↔
      s.hit securityId = true ∨ StartsIn securityId (block ++ items) := by
  induction items generalizing s block with
  | nil =>
    rw [List.append_nil]
    exact h.dispatch_hit_iff securityId hx
  | cons item items ih =>
    rw [List.foldl_cons]
    by_cases hid : item.securityID = s.securityId
    · have henter : s.enter get item.securityID = s := by
        rw [enter, if_neg (fun hne => hne hid)]
      obtain ⟨hr, -, hhit⟩ := h.collect securityId options hid
      have hrest := ih hr
      rw [hhit, List.append_assoc, List.singleton_append] at hrest
      rw [process, henter]
      exact hrest
    · obtain ⟨hr, -, hhit⟩ := Reading.next securityId get options hid h.idle
      rw [ih hr, hhit, h.dispatch_hit_iff securityId hx, List.singleton_append,
        startsIn_append h.same (by simpa using hid), or_assoc]

/-- Up to the first entry of another security, entries of security zero lead to nothing. -/
theorem foldl_idle_hit_iff (options : Options) {get : Lookup Qp Qo}
    (hx : (get.find securityId).isSome) (items : List Book46.Entry) (s : Book46Loop Qp Qo)
    (hid : s.securityId = 0) (hs : s.security = none) (hidle : s.bids = [] ∧ s.asks = []) :
    (items.foldl (process options get) s).dispatch.hit securityId = true ↔
      s.hit securityId = true ∨
        StartsIn securityId (items.dropWhile fun e => e.securityID = 0) := by
  induction items generalizing s with
  | nil =>
    rw [List.foldl_nil, dispatch_hit, hs]
    simp [StartsIn]
  | cons item items ih =>
    rw [List.foldl_cons]
    by_cases hz : item.securityID = 0
    · obtain ⟨hid', hs', hc⟩ := process_idle options get s item hid hs hz
      have henter : s.enter get item.securityID = s := by
        rw [enter, if_neg (fun hne => hne (hz.trans hid.symm))]
      have hprices := (collect_spec securityId options s item).2.2.2.2.1 hs
      have hidle' : (process options get s item).bids = [] ∧
          (process options get s item).asks = [] := by
        rw [process, henter, hprices.1, hprices.2]
        exact hidle
      rw [ih _ hid' hs' hidle', hit, hc, hit, List.dropWhile_cons_of_pos (by simpa using hz)]
    · have hne : item.securityID ≠ s.securityId := by
        rw [hid]
        exact hz
      obtain ⟨hr, -, hhit⟩ := Reading.next securityId get options hne (fun _ => hidle)
      rw [hr.foldl_hit_iff securityId options hx, hhit, dispatch_hit, hs,
        List.dropWhile_cons_of_neg (by simpa using hz), List.singleton_append]
      simp

end Book46Loop

theorem any_isMbpSnapshot_of_actions {calls : List Call} (securityId : Int)
    (h : ∀ c ∈ calls, c.action.isMbpSnapshot = false) :
    calls.any (Call.isMbpSnapshot securityId) = false := by
  rw [List.any_eq_false]
  intro c hc
  simp [Call.isMbpSnapshot, h c hc]

theorem book46_isMbpSnapshot_iff (options : Options) {get : Lookup Qp Qo} (cache : Cache)
    (pending : PendingSummary) (value : Book46) {securityId : Int}
    (hx : (get securityId).isSome) :
    (book46 options get cache pending value).calls.any (Call.isMbpSnapshot securityId) = true ↔
      StartsIn securityId (value.noMDEntries.dropWhile fun e => e.securityID = 0) := by
  have hfind : (get.find securityId).isSome := by
    rw [Lookup.find, Option.isSome_map]
    exact hx
  have hprices : (Book46Loop.run options get value.noMDEntries).calls.any
      (Call.isMbpSnapshot securityId) = true ↔
      StartsIn securityId (value.noMDEntries.dropWhile fun e => e.securityID = 0) := by
    refine (Book46Loop.foldl_idle_hit_iff securityId options hfind value.noMDEntries {} rfl rfl
      ⟨rfl, rfl⟩).trans ?_
    simp [Book46Loop.hit]
  have horders : ∀ (mdEntries : List MdEntry) (b : Bool),
      (Order46Loop.run get mdEntries b cache.orders value.noOrderIDEntries).calls.any
        (Call.isMbpSnapshot securityId) = false := by
    intro mdEntries b
    apply any_isMbpSnapshot_of_actions
    intro c hc
    obtain ⟨_, _, h⟩ := Order46Loop.run_updates _ _ _ _ _ c hc
    rw [h]
    rfl
  simp only [book46]
  split
  · rw [List.any_append, horders, Bool.or_false]
    exact hprices
  · exact hprices

/-- Statistics start the book of every security with a first report among them. -/
theorem dispatchStatistics_isMbpSnapshot_iff {τ : Type} {get : Lookup Qp Qo} (cache : Cache)
    (pending : PendingSummary) (callback : StatisticsEntry τ → Security Qp Qo → Statistics)
    (value : StatisticsMessage τ) {securityId : Int} (hx : (get securityId).isSome) :
    (dispatchStatistics get cache pending callback value).calls.any
        (Call.isMbpSnapshot securityId) = true ↔
      (securityId, 1) ∈
        visited (value.noMDEntries.map fun item => (item.securityID, item.rptSeq)) := by
  have hseen : (dispatchStatistics get cache pending callback value).calls.filter
      (Call.isMbpSnapshot securityId) =
        (value.noMDEntries.dropWhile fun item => item.securityID = 0).flatMap fun item =>
          if (get item.securityID).isSome then
            if item.rptSeq = 1 ∧ item.securityID = securityId then
              [⟨securityId, .dispatchMarketByPrice [] [] true⟩] else []
          else [] := by
    refine (SecurityIterator.run_observed get StatisticsEntry.securityID _ _
      (fun s : List Statistics × List Call => s.2.filter (Call.isMbpSnapshot securityId))
      (fun item => if item.rptSeq = 1 ∧ item.securityID = securityId then
        [⟨securityId, .dispatchMarketByPrice [] [] true⟩] else []) ?_ ?_
      value.noMDEntries ([], [])).trans ?_
    · intro i found s
      split
      · rfl
      · simp [Call.isMbpSnapshot, Action.isMbpSnapshot]
    · intro i found item s hid
      by_cases h1 : item.rptSeq = 1
      · by_cases he : item.securityID = securityId
        · simp [Call.isMbpSnapshot, Action.isMbpSnapshot, hid, h1, he]
        · simp [Call.isMbpSnapshot, Action.isMbpSnapshot, hid, h1, he]
      · simp [Call.isMbpSnapshot, Action.isMbpSnapshot, h1]
    · rfl
  have hany : (dispatchStatistics get cache pending callback value).calls.any
      (Call.isMbpSnapshot securityId) = true ↔
      (dispatchStatistics get cache pending callback value).calls.filter
        (Call.isMbpSnapshot securityId) ≠ [] := by
    simp [List.filter_eq_nil_iff]
  have hvisited : visited (value.noMDEntries.map fun item => (item.securityID, item.rptSeq)) =
      (value.noMDEntries.dropWhile fun item => item.securityID = 0).map
        fun item => (item.securityID, item.rptSeq) := by
    rw [visited, List.dropWhile_map]
    rfl
  rw [hany, hseen, hvisited, ne_eq, List.flatMap_eq_nil_iff, List.mem_map]
  push Not
  constructor
  · rintro ⟨item, hm, hne⟩
    split at hne
    · split at hne
      · next h => exact ⟨item, hm, by rw [h.1, h.2]⟩
      · exact absurd rfl hne
    · exact absurd rfl hne
  · rintro ⟨item, hm, he⟩
    obtain ⟨rfl, h1⟩ := Prod.mk.inj he
    refine ⟨item, hm, ?_⟩
    rw [if_pos hx, if_pos ⟨h1, rfl⟩]
    exact List.cons_ne_nil _ _

/-- A message of the incremental feed asks for a price snapshot exactly when it starts the
book. -/
theorem react_isMbpSnapshot_iff (options : Options) {sd : SecurityDefinitions Qp Qo}
    (cache : Cache) (pending : PendingSummary) (message : Message) {securityId : Int}
    (hx : (sd.getSecurity securityId).isSome) :
    (react options sd cache pending message).calls.any (Call.isMbpSnapshot securityId) = true ↔
      StartsBook securityId message := by
  have hnone : (∀ c ∈ (react options sd cache pending message).calls,
      c.action.isMbpSnapshot = false) → ¬ (react options sd cache pending message).calls.any
        (Call.isMbpSnapshot securityId) = true := by
    intro h
    rw [any_isMbpSnapshot_of_actions securityId h]
    exact Bool.false_ne_true
  cases message with
  | adminHeartbeat12 | channelReset4 | quoteRequest39 => exact iff_of_false (by simp [react]) id
  | snapshotFullRefresh52 | snapshotFullRefreshLongQty69 | snapshotFullRefreshOrderBook53 =>
    exact iff_of_false (by simp [react]) id
  | securityStatus30 value =>
    refine iff_of_false (hnone ?_) id
    intro c hc
    obtain ⟨status, hs⟩ := securityStatus30_calls sd cache pending value c hc
    rw [hs]
    rfl
  | instrumentDefinition value =>
    refine iff_of_false (hnone ?_) id
    intro c hc
    rw [instrumentDefinition_calls sd cache pending value c hc]
    rfl
  | book46 value => exact book46_isMbpSnapshot_iff options cache pending value hx
  | bookLongQty64 items | volumeLongQty66 items | limitsBanding50 items =>
    refine iff_of_false (hnone ?_) id
    intro c hc
    obtain ⟨r, h⟩ := reportOnly_action sd.getSecurity cache pending items c hc
    rw [h]
    rfl
  | orderBook47 value =>
    refine iff_of_false (hnone ?_) id
    intro c hc
    obtain ⟨_, h⟩ := orderBook47_updates options sd cache pending value c hc
    rw [h]
    rfl
  | tradeSummary48 value | tradeSummaryLongQty65 value =>
    refine iff_of_false (hnone ?_) id
    intro c hc
    obtain ⟨_, h⟩ | ⟨_, -, h⟩ | ⟨_, h⟩ :=
      dispatchTradeSummary_action sd.getSecurity cache pending value c hc
    · rw [h]; rfl
    · rw [h]; rfl
    · rw [h]; rfl
  | dailyStatistics49 value | sessionStatistics51 value | sessionStatisticsLongQty67 value
  | volume37 value =>
    exact dispatchStatistics_isMbpSnapshot_iff cache pending _ value hx

/-- Whichever message brings report number 1 of a known security, in whatever state: it submits
a price snapshot exactly when it is a statistics message or a template 46 with a price level
next to that report. -/
theorem price_snapshot_at_first_report_iff (env : Env Qp Qo) (f : Feeds Qp Qo)
    (channelId streamId : Nat) (frame : Frame) (message : Message) (securityId : Int)
    (s : Security Qp Qo)
    (hs : f.shared.securityDefinitions.getSecurity securityId = some s) :
    f.submitsMbpSnapshot env (.incremental channelId streamId frame message) securityId = true ↔
      StartsBook securityId message := by
  obtain ⟨hsec, -⟩ := getSecurity_eq_some.1 hs
  rw [← react_isMbpSnapshot_iff env.options (f.caches channelId) f.shared.pending message
    (by rw [hs]; rfl)]
  let r := react env.options f.shared.securityDefinitions (f.caches channelId) f.shared.pending
    message
  obtain ⟨records, hrecords, hany⟩ := performAll_any env ⟨streamId, frame, r.exchangeTimeUtc⟩
    r.calls
    { f.shared with
      securityDefinitions := definitionsAfter env f.shared.securityDefinitions message
      pending := r.pending, fault := f.shared.fault || r.fault } securityId s
    (definitionsAfter_known env message hsec)
  have hnew : f.recordsOf env (.incremental channelId streamId frame message) securityId =
      records := by
    simp only [Feeds.recordsOf, Feeds.step, Incremental.onMessage]
    refine (congrArg (List.drop _) hrecords).trans ?_
    exact List.drop_left
  rw [Feeds.submitsMbpSnapshot, hnew, hany]

/-- Entries of security 7 with the first report number. -/
def firstStatistics : Message :=
  .sessionStatistics51 ⟨100, [⟨5000000000000, none, 7, 1, .openPrice⟩]⟩

def firstLevel (entryType : MDEntryTypeBook) : Message :=
  .book46 ⟨100, [⟨some 5000000000000, some 5, 7, 1, some 1, some 1, .new, entryType⟩], []⟩

theorem price_snapshot_at_first_statistics :
    let env := Env.direct { enableMarketByOrder := true }
    let f := Feeds.ofSecDefs env [SecDef.sample 7 "ESZ5"]
    f.submitsMbpSnapshot env (.incremental 310 1 ⟨1, 0⟩ firstStatistics) 7 = true := by
  intro env f
  refine (price_snapshot_at_first_report_iff env f 310 1 ⟨1, 0⟩ firstStatistics 7
    (newSecurity none none "CME" "ESZ5" (some 1) false) (by decide +kernel)).2 ?_
  have hmem : ((7 : Int), 1) ∈ checkedOf firstStatistics := by decide
  exact hmem

/-- Price limits, a trade or an implied price as the first report: the report number is taken,
and no snapshot is submitted. -/
theorem first_report_without_price_snapshot :
    let env := Env.direct { enableMarketByOrder := true }
    let f := Feeds.ofSecDefs env [SecDef.sample 7 "ESZ5"]
    ∀ message ∈ [Message.limitsBanding50 [⟨7, 1⟩], .bookLongQty64 [⟨7, 1⟩],
        .tradeSummary48 ⟨100, [⟨5000000000000, 1, 7, 1, 0, some 1, .buy⟩], []⟩,
        firstLevel .impliedBid],
      (7, 1) ∈ reportsOf message ∧
        ((f.step env (.incremental 310 1 ⟨1, 0⟩ message)).shared.securityDefinitions.getSecurity
          7).map Security.rptSeq = some 1 ∧
        f.submitsMbpSnapshot env (.incremental 310 1 ⟨1, 0⟩ message) 7 = false := by
  decide +kernel

end RoqCme.MarketData
