import RoqCme.Lib.Runs
import RoqCme.MarketData.FreshStart

/-! The price entries of template 46. The loop keeps the security, the layer, two vectors and a flag
from one entry to the next and hands them on when the security changes: once for each maximal run of
entries of one security. -/
namespace RoqCme.MarketData
open RoqCme.Lib RoqCme.Mdp RoqCme.Tools
variable {Qp Qo : Type}

def isMarketByPrice : Action → Bool
  | .dispatchMarketByPrice _ _ _ => true
  | _ => false

def isTopOfBook : Action → Bool
  | .topOfBook _ => true
  | _ => false

/-- The entries of one type. -/
def entriesOf (type : MDEntryTypeBook) (run : List Book46.Entry) : List Book46.Entry :=
  run.filter fun item => item.mDEntryType = type

/-- The price of the last entry of this type; `none` if there is no entry or no price. -/
def lastPrice (type : MDEntryTypeBook) (run : List Book46.Entry) : Option Int :=
  (entriesOf type run).getLast?.bind Book46.Entry.mDEntryPx

/-- One call for a run with bids or offers of a known security. -/
def priceCalls (get : Lookup Qp Qo) (run : List Book46.Entry) : List Call :=
  match run.head?.bind fun item => get.find item.securityID with
  | none => []
  | some found =>
    if entriesOf .bid run = [] ∧ entriesOf .offer run = [] then []
    else
      [⟨found.securityId, .dispatchMarketByPrice
        ((entriesOf .bid run).map fun item => mbpUpdate item found.security)
        ((entriesOf .offer run).map fun item => mbpUpdate item found.security)
        (run.any fun item => item.rptSeq = 1)⟩]

/-- One update for a run of a known security whose last best bid or best offer has a price, if the
security has a display factor. -/
def topOfBookCalls (get : Lookup Qp Qo) (run : List Book46.Entry) : List Call :=
  match run.head?.bind fun item => get.find item.securityID with
  | none => []
  | some found =>
    if (lastPrice .marketBestBid run = none ∧ lastPrice .marketBestOffer run = none) ∨
        found.security.displayFactor = none then []
    else
      [⟨found.securityId, .topOfBook
        { bidPrice := (priceNull9 (lastPrice .marketBestBid run)).mul found.security.displayFactor
          askPrice := (priceNull9 (lastPrice .marketBestOffer run)).mul
            found.security.displayFactor }⟩]

theorem entriesOf_concat (type : MDEntryTypeBook) (run : List Book46.Entry) (item : Book46.Entry) :
    entriesOf type (run ++ [item]) =
      entriesOf type run ++ if item.mDEntryType = type then [item] else [] := by
  rw [entriesOf, List.filter_append, ← entriesOf, List.filter_singleton]
  by_cases h : item.mDEntryType = type
  · simp [h]
  · simp [h]

theorem lastPrice_concat (type : MDEntryTypeBook) (run : List Book46.Entry) (item : Book46.Entry) :
    lastPrice type (run ++ [item]) =
      if item.mDEntryType = type then item.mDEntryPx else lastPrice type run := by
  rw [lastPrice, entriesOf_concat]
  by_cases h : item.mDEntryType = type
  · simp [h]
  · simp [h, lastPrice]

/-- The layer that the last best prices of a run make. -/
def layerOf (security : Security Qp Qo) (run : List Book46.Entry) : Layer :=
  { bidPrice := (priceNull9 (lastPrice .marketBestBid run)).mul security.displayFactor
    askPrice := (priceNull9 (lastPrice .marketBestOffer run)).mul security.displayFactor }

def levelsOf (type : MDEntryTypeBook) (security : Security Qp Qo) (run : List Book46.Entry) :
    List MBPUpdate :=
  (entriesOf type run).map fun item => mbpUpdate item security

/-- The layer is empty where neither price is there, and where they cannot be scaled. -/
theorem layerOf_eq_empty_iff (security : Security Qp Qo) (run : List Book46.Entry) :
    layerOf security run = {} ↔
      (lastPrice .marketBestBid run = none ∧ lastPrice .marketBestOffer run = none) ∨
        security.displayFactor = none := by
  rw [layerOf, Layer.mk.injEq]
  cases hf : security.displayFactor with
  | none =>
    have hmul : ∀ x : Double, x.mul none = none := by
      intro x
      cases x with
      | none => rfl
      | some x => rfl
    simp [hmul]
  | some factor =>
    have hmul : ∀ x : Option Int, (priceNull9 x).mul (some factor) = none ↔ x = none := by
      intro x
      cases x with
      | none => simp [priceNull9, Double.mul]
      | some x => simp [priceNull9, price9, Double.mul]
    simp [hmul]

namespace Book46Loop

/-- The calls of the two kinds made so far. -/
def booked (s : Book46Loop Qp Qo) : List Call :=
  s.calls.filter fun c => isMarketByPrice c.action || isTopOfBook c.action

/-- What the loop keeps of a run that it has read. -/
structure Holds (get : Lookup Qp Qo) (s : Book46Loop Qp Qo) (run : List Book46.Entry) : Prop where
  same : ∀ item ∈ run, item.securityID = s.securityId
  security : s.security = get.find s.securityId
  isSnapshot : s.isSnapshot = run.any fun item => item.rptSeq = 1
  bids : s.bids = s.security.elim [] fun found => levelsOf .bid found.security run
  asks : s.asks = s.security.elim [] fun found => levelsOf .offer found.security run
  layer : s.layer = s.security.elim {} fun found => layerOf found.security run

theorem booked_call (s : Book46Loop Qp Qo) (found : Found Qp Qo) {action : Action}
    (h : (isMarketByPrice action || isTopOfBook action) = false) :
    (s.call found action).booked = s.booked := by
  simp [booked, call, h]

/-- Flagging, reporting and remembering an entry leave the contents alone. -/
theorem prepare_spec (options : Options) (s : Book46Loop Qp Qo) (item : Book46.Entry) :
    let t := ((s.flag item).report item).remember options item
    SamePrices s t ∧ t.isSnapshot = (s.isSnapshot || decide (item.rptSeq = 1)) ∧
      t.layer = s.layer ∧ t.booked = s.booked := by
  intro t
  obtain ⟨hf, hfc, hfs⟩ := flag_spec s item
  obtain ⟨hr, -, hrs⟩ := report_spec 0 (s.flag item) item
  obtain ⟨hm, hmc, hms⟩ := remember_spec options ((s.flag item).report item) item
  have hflag : (s.flag item).layer = s.layer := by
    rw [flag]
    split
    · rfl
    · rfl
  have hreport : ((s.flag item).report item).layer = (s.flag item).layer ∧
      ((s.flag item).report item).booked = (s.flag item).booked := by
    rw [report]
    split
    · exact ⟨rfl, booked_call _ _ rfl⟩
    · exact ⟨rfl, rfl⟩
  have hremember : t.layer = ((s.flag item).report item).layer := by
    simp only [t, remember]
    split
    · rfl
    · rfl
  refine ⟨⟨?_, ?_, ?_, ?_⟩, hms.trans (hrs.trans hfs), hremember.trans (hreport.1.trans hflag), ?_⟩
  · exact hm.securityId.trans (hr.securityId.trans hf.securityId)
  · exact hm.security.trans (hr.security.trans hf.security)
  · exact hm.bids.trans (hr.bids.trans hf.bids)
  · exact hm.asks.trans (hr.asks.trans hf.asks)
  · have hb : t.booked = ((s.flag item).report item).booked := by rw [booked, hmc, booked]
    rw [hb, hreport.2, booked, hfc, booked]

theorem emplaceBack_spec (t : Book46Loop Qp Qo) (item : Book46.Entry) (security : Security Qp Qo) :
    let u := t.emplaceBack item security
    let price := (priceNull9 item.mDEntryPx).mul security.displayFactor
    (u.securityId = t.securityId ∧ u.security = t.security ∧ u.isSnapshot = t.isSnapshot ∧
        u.calls = t.calls) ∧
      u.bids = t.bids ++ (if item.mDEntryType = .bid then [mbpUpdate item security] else []) ∧
      u.asks = t.asks ++ (if item.mDEntryType = .offer then [mbpUpdate item security] else []) ∧
      u.layer =
        { bidPrice := if item.mDEntryType = .marketBestBid then price else t.layer.bidPrice
          askPrice := if item.mDEntryType = .marketBestOffer then price else t.layer.askPrice } := by
  intro u price
  simp only [u, emplaceBack]
  cases ht : item.mDEntryType with
  | bid | offer | impliedBid | impliedOffer | bookReset | marketBestOffer | marketBestBid | null =>
    simp [price]

theorem levelsOf_concat (type : MDEntryTypeBook) (security : Security Qp Qo)
    (run : List Book46.Entry) (item : Book46.Entry) :
    levelsOf type security (run ++ [item]) = levelsOf type security run ++
      if item.mDEntryType = type then [mbpUpdate item security] else [] := by
  rw [levelsOf, entriesOf_concat, List.map_append, ← levelsOf]
  split
  · rfl
  · rfl

theorem layerOf_concat (security : Security Qp Qo) (run : List Book46.Entry)
    (item : Book46.Entry) :
    layerOf security (run ++ [item]) =
      { bidPrice := if item.mDEntryType = .marketBestBid then
          (priceNull9 item.mDEntryPx).mul security.displayFactor else (layerOf security run).bidPrice
        askPrice := if item.mDEntryType = .marketBestOffer then
          (priceNull9 item.mDEntryPx).mul security.displayFactor
          else (layerOf security run).askPrice } := by
  simp only [layerOf, lastPrice_concat]
  congr 1
  · split
    · rfl
    · rfl
  · split
    · rfl
    · rfl

/-- One more entry of the run. -/
theorem Holds.concat {get : Lookup Qp Qo} {s : Book46Loop Qp Qo} {run : List Book46.Entry}
    (h : s.Holds get run) (options : Options) {item : Book46.Entry}
    (hid : item.securityID = s.securityId) :
    (process options get s item).Holds get (run ++ [item]) ∧
      (process options get s item).booked = s.booked := by
  obtain ⟨ht, hflag, hlayer, hbooked⟩ := prepare_spec options s item
  have henter : s.enter get item.securityID = s := by rw [enter, if_neg (fun hne => hne hid)]
  rw [process, henter]
  generalize ((s.flag item).report item).remember options item = t at ht hflag hlayer hbooked
  have hsame : ∀ item' ∈ run ++ [item], item'.securityID = s.securityId := by
    intro item' hm
    cases List.mem_append.1 hm with
    | inl hm => exact h.same item' hm
    | inr hm =>
      rw [List.mem_singleton.1 hm]
      exact hid
  have hany : t.isSnapshot = (run ++ [item]).any fun item => item.rptSeq = 1 := by
    rw [hflag, h.isSnapshot, List.any_append]
    simp
  have hfind : t.security = get.find t.securityId := by
    rw [ht.security, ht.securityId]
    exact h.security
  cases hs : s.security with
  | none =>
    have hcollect : t.collect options item = t := by rw [collect, ht.security, hs]
    rw [hcollect]
    refine ⟨⟨by rw [ht.securityId]; exact hsame, hfind, hany, ?_, ?_, ?_⟩, hbooked⟩
    · rw [ht.bids, h.bids, ht.security, hs]
      rfl
    · rw [ht.asks, h.asks, ht.security, hs]
      rfl
    · rw [hlayer, h.layer, ht.security, hs]
      rfl
  | some found =>
    have hcollect : t.collect options item = { t.emplaceBack item found.security with
        orders := (t.emplaceBack item found.security).orders ++
          clearPriceLevel options item found.security } := by
      simp only [collect, ht.security, hs]
    have hsome : t.security = some found := ht.security.trans hs
    obtain ⟨⟨hid', hsec', hsnap', hcalls'⟩, hbids', hasks', hlayer'⟩ :=
      emplaceBack_spec t item found.security
    rw [hcollect]
    refine ⟨⟨?_, ?_, hsnap'.trans hany, ?_, ?_, ?_⟩, ?_⟩
    · intro item' hm
      exact (hsame item' hm).trans (ht.securityId.symm.trans hid'.symm)
    · exact hsec'.trans (hfind.trans (by rw [hid']))
    · simp only [hsec', hsome, Option.elim_some]
      rw [hbids', ht.bids, h.bids, hs, levelsOf_concat]
      rfl
    · simp only [hsec', hsome, Option.elim_some]
      rw [hasks', ht.asks, h.asks, hs, levelsOf_concat]
      rfl
    · simp only [hsec', hsome, Option.elim_some]
      rw [hlayer', hlayer, h.layer, hs, layerOf_concat]
      rfl
    · rw [← hbooked, booked, hcalls', booked]

/-- What is handed on at the end of a run. -/
def runCalls (get : Lookup Qp Qo) (run : List Book46.Entry) : List Call :=
  topOfBookCalls get run ++ priceCalls get run

theorem dispatchTopOfBook_spec (s : Book46Loop Qp Qo) (found : Found Qp Qo) :
    (s.dispatchTopOfBook found).booked = s.booked ++
        (if s.layer = {} then [] else [⟨found.securityId, .topOfBook s.layer⟩]) ∧
      (s.dispatchTopOfBook found).layer = {} ∧ (s.dispatchTopOfBook found).bids = s.bids ∧
      (s.dispatchTopOfBook found).asks = s.asks ∧
      (s.dispatchTopOfBook found).isSnapshot = s.isSnapshot := by
  by_cases h : s.layer = {}
  · simp [dispatchTopOfBook, h]
  · simp [dispatchTopOfBook, h, call, booked, isTopOfBook]

theorem dispatchPrices_spec (s : Book46Loop Qp Qo) (found : Found Qp Qo) :
    (s.dispatchPrices found).booked = s.booked ++ (if s.bids = [] ∧ s.asks = [] then [] else
        [⟨found.securityId, .dispatchMarketByPrice s.bids s.asks s.isSnapshot⟩]) ∧
      (s.dispatchPrices found).layer = s.layer ∧ (s.dispatchPrices found).bids = [] ∧
      (s.dispatchPrices found).asks = [] := by
  by_cases h : s.bids = [] ∧ s.asks = []
  · simp [dispatchPrices, h.1, h.2]
  · have hne : s.bids ≠ [] ∨ s.asks ≠ [] := by
      rw [← not_and_or]
      exact h
    simp [dispatchPrices, h, hne, call, booked, isMarketByPrice]

theorem dispatchOrders_spec (s : Book46Loop Qp Qo) (found : Found Qp Qo) :
    (s.dispatchOrders found).booked = s.booked ∧ (s.dispatchOrders found).layer = s.layer ∧
      (s.dispatchOrders found).bids = s.bids ∧ (s.dispatchOrders found).asks = s.asks := by
  rw [dispatchOrders]
  split
  · exact ⟨booked_call s found rfl, rfl, rfl, rfl⟩
  · exact ⟨rfl, rfl, rfl, rfl⟩

/-- What the loop holds is handed on under the security that it was read for. -/
theorem Holds.dispatch {get : Lookup Qp Qo} {s : Book46Loop Qp Qo} {run : List Book46.Entry}
    (h : s.Holds get run) (hn : run ≠ []) :
    s.dispatch.booked = s.booked ++ runCalls get run ∧ s.dispatch.bids = [] ∧
      s.dispatch.asks = [] ∧ s.dispatch.layer = {} := by
  have hhead : (run.head?.bind fun item => get.find item.securityID) = s.security := by
    obtain ⟨item, rest, rfl⟩ := List.exists_cons_of_ne_nil hn
    rw [List.head?_cons, Option.bind_some, h.same item List.mem_cons_self, h.security]
  cases hs : s.security with
  | none =>
    have hdispatch : s.dispatch = s := by simp only [Book46Loop.dispatch, hs]
    have hcalls : runCalls get run = [] := by
      rw [runCalls, topOfBookCalls, priceCalls, hhead, hs]
      rfl
    rw [hdispatch, hcalls, List.append_nil, h.bids, h.asks, h.layer, hs]
    exact ⟨rfl, rfl, rfl, rfl⟩
  | some found =>
    have hdispatch : s.dispatch =
        ((s.dispatchTopOfBook found).dispatchPrices found).dispatchOrders found := by
      simp only [Book46Loop.dispatch, hs]
    obtain ⟨htop, htopLayer, htopBids, htopAsks, htopFlag⟩ := s.dispatchTopOfBook_spec found
    obtain ⟨hprices, hpricesLayer, hpricesBids, hpricesAsks⟩ :=
      (s.dispatchTopOfBook found).dispatchPrices_spec found
    obtain ⟨horders, hordersLayer, hordersBids, hordersAsks⟩ :=
      ((s.dispatchTopOfBook found).dispatchPrices found).dispatchOrders_spec found
    have hlayer : s.layer = layerOf found.security run := by rw [h.layer, hs]; rfl
    have hbids : s.bids = levelsOf .bid found.security run := by rw [h.bids, hs]; rfl
    have hasks : s.asks = levelsOf .offer found.security run := by rw [h.asks, hs]; rfl
    rw [hdispatch, hordersBids, hordersAsks, hordersLayer, hpricesLayer, htopLayer]
    refine ⟨?_, hpricesBids, hpricesAsks, rfl⟩
    rw [horders, hprices, htop, htopBids, htopAsks, htopFlag, hlayer, hbids, hasks, h.isSnapshot,
      List.append_assoc, runCalls, topOfBookCalls, priceCalls, hhead, hs]
    simp only [layerOf_eq_empty_iff, levelsOf, List.map_eq_nil_iff]
    rfl

/-- The first entry of the next run. -/
theorem Holds.next (get : Lookup Qp Qo) {s : Book46Loop Qp Qo} (options : Options)
    {item : Book46.Entry} (hid : item.securityID ≠ s.securityId) (hbids : s.dispatch.bids = [])
    (hasks : s.dispatch.asks = []) (hlayer : s.dispatch.layer = {}) :
    (process options get s item).Holds get [item] ∧
      (process options get s item).booked = s.dispatch.booked := by
  have henter : s.enter get item.securityID = { s.dispatch with
      securityId := item.securityID, security := get.find item.securityID, isSnapshot := false } := by
    rw [enter, if_pos hid]
  have hstart : (s.enter get item.securityID).Holds get [] := by
    rw [henter]
    refine ⟨?_, rfl, rfl, ?_, ?_, ?_⟩
    · intro item' hm
      cases hm
    · simp only [hbids]
      cases get.find item.securityID with
      | none => rfl
      | some found => rfl
    · simp only [hasks]
      cases get.find item.securityID with
      | none => rfl
      | some found => rfl
    · simp only [hlayer]
      cases get.find item.securityID with
      | none => rfl
      | some found => rfl
  have hthere : (s.enter get item.securityID).securityId = item.securityID := by rw [henter]
  have hprocess : process options get s item =
      process options get (s.enter get item.securityID) item := by
    have hagain : (s.enter get item.securityID).enter get item.securityID =
        s.enter get item.securityID := by
      rw [enter, if_neg (fun hne => hne hthere.symm)]
    rw [process, process, hagain]
  obtain ⟨hholds, hbooked⟩ := hstart.concat options hthere.symm
  rw [hprocess]
  refine ⟨hholds, hbooked.trans ?_⟩
  rw [henter]
  rfl

/-- The loop hands on one maximal run after the other. -/
theorem run_booked (options : Options) (get : Lookup Qp Qo) (items : List Book46.Entry)
    (h0 : ∀ item ∈ items, item.securityID ≠ 0) :
    (run options get items).booked = (runs Book46.Entry.securityID items).flatMap (runCalls get) := by
  cases items with
  | nil => rfl
  | cons item items =>
    have hfirst : item.securityID ≠ ({} : Book46Loop Qp Qo).securityId := h0 item List.mem_cons_self
    obtain ⟨hholds, hbooked⟩ := Holds.next get options hfirst rfl rfl rfl
    have hsame : ∀ (s : Book46Loop Qp Qo) block (item : Book46.Entry), s.Holds get block →
        block ≠ [] → (∀ b ∈ block, b.securityID = item.securityID) →
        (process options get s item).Holds get (block ++ [item]) ∧
          (process options get s item).booked = s.booked := by
      intro s block item hs hn hkey
      obtain ⟨b, hb⟩ := List.exists_mem_of_ne_nil block hn
      exact hs.concat options ((hkey b hb).symm.trans (hs.same b hb))
    have hnext : ∀ (s : Book46Loop Qp Qo) block (item : Book46.Entry), s.Holds get block →
        block ≠ [] → (∀ b ∈ block, b.securityID ≠ item.securityID) →
        (process options get s item).Holds get [item] ∧
          (process options get s item).booked = s.booked ++ runCalls get block := by
      intro s block item hs hn hkey
      obtain ⟨b, hb⟩ := List.exists_mem_of_ne_nil block hn
      obtain ⟨hout, hbids, hasks, hlayer⟩ := hs.dispatch hn
      have hid : item.securityID ≠ s.securityId := fun he =>
        hkey b hb ((hs.same b hb).trans he.symm)
      rw [← hout]
      exact Holds.next get options hid hbids hasks hlayer
    obtain ⟨last, hlast, hn, heq⟩ := foldl_runs Book46.Entry.securityID hsame hnext items hholds
      (List.cons_ne_nil _ _) (by simp [OneKey])
    rw [run, List.foldl_cons, (hlast.dispatch hn).1, heq, hbooked]
    rfl

end Book46Loop

theorem filter_priceCalls (get : Lookup Qp Qo) (run : List Book46.Entry) :
    (priceCalls get run).filter (fun c => isMarketByPrice c.action) = priceCalls get run ∧
      (priceCalls get run).filter (fun c => isTopOfBook c.action) = [] := by
  rw [priceCalls]
  split
  · exact ⟨rfl, rfl⟩
  · split
    · exact ⟨rfl, rfl⟩
    · exact ⟨rfl, rfl⟩

theorem filter_topOfBookCalls (get : Lookup Qp Qo) (run : List Book46.Entry) :
    (topOfBookCalls get run).filter (fun c => isTopOfBook c.action) = topOfBookCalls get run ∧
      (topOfBookCalls get run).filter (fun c => isMarketByPrice c.action) = [] := by
  rw [topOfBookCalls]
  split
  · exact ⟨rfl, rfl⟩
  · split
    · exact ⟨rfl, rfl⟩
    · exact ⟨rfl, rfl⟩

/-- Of the calls that a message leads to, those of one of the two kinds are made by the first loop. -/
theorem book46_filter (options : Options) (get : Lookup Qp Qo) (cache : Cache)
    (pending : PendingSummary) (value : Book46) {kind : Action → Bool}
    (hkind : ∀ a, kind a = true → (isMarketByPrice a || isTopOfBook a) = true) :
    ((book46 options get cache pending value).calls.filter fun c => kind c.action) =
      (Book46Loop.run options get value.noMDEntries).booked.filter fun c => kind c.action := by
  have hbooked : ((Book46Loop.run options get value.noMDEntries).booked.filter fun c =>
      kind c.action) =
      (Book46Loop.run options get value.noMDEntries).calls.filter fun c => kind c.action := by
    rw [Book46Loop.booked, List.filter_filter]
    apply List.filter_congr
    intro c hc
    cases hk : kind c.action with
    | false => rfl
    | true => exact hkind c.action hk
  have horders : ∀ (mdEntries : List MdEntry) (b : Bool),
      ((Order46Loop.run get mdEntries b cache.orders value.noOrderIDEntries).calls.filter fun c =>
        kind c.action) = [] := by
    intro mdEntries b
    rw [List.filter_eq_nil_iff]
    intro c hc hk
    obtain ⟨_, _, h⟩ := Order46Loop.run_updates _ _ _ _ _ c hc
    have hfalse := hkind c.action hk
    rw [h] at hfalse
    cases hfalse
  simp only [book46]
  split
  · rw [List.filter_append, horders, List.append_nil, hbooked]
  · rw [hbooked]

/-- Template 46, any entries of securities other than 0. The price updates are those of the maximal
runs of entries of one security, in order, and so are the top of book updates. -/
theorem book46_published_by_run (options : Options) (sd : SecurityDefinitions Qp Qo) (cache : Cache)
    (pending : PendingSummary) (value : Book46)
    (h0 : ∀ item ∈ value.noMDEntries, item.securityID ≠ 0) :
    let calls := (react options sd cache pending (.book46 value)).calls
    let blocks := runs Book46.Entry.securityID value.noMDEntries
    (calls.filter fun c => isMarketByPrice c.action) = blocks.flatMap (priceCalls sd.getSecurity) ∧
      (calls.filter fun c => isTopOfBook c.action) =
        blocks.flatMap (topOfBookCalls sd.getSecurity) := by
  intro calls blocks
  have hrun := Book46Loop.run_booked options sd.getSecurity value.noMDEntries h0
  have hcalls : calls = (book46 options sd.getSecurity cache pending value).calls := rfl
  constructor
  · rw [hcalls, book46_filter options _ _ _ _ (by simp +contextual), hrun, List.filter_flatMap]
    congr 1
    funext run
    rw [Book46Loop.runCalls, List.filter_append, (filter_priceCalls _ run).1,
      (filter_topOfBookCalls _ run).2, List.nil_append]
  · rw [hcalls, book46_filter options _ _ _ _ (by simp +contextual), hrun, List.filter_flatMap]
    congr 1
    funext run
    rw [Book46Loop.runCalls, List.filter_append, (filter_priceCalls _ run).2,
      (filter_topOfBookCalls _ run).1, List.append_nil]

/-- Two securities with an unknown one between their entries, and the first once more. -/
def mixedEntries : Book46 :=
  ⟨100,
    [⟨some 5000000000000, some 5, 7, 1, some 1, some 1, .new, .bid⟩,
      ⟨some 5001000000000, some 3, 9, 4, some 1, some 1, .new, .bid⟩,
      ⟨some 6000000000000, some 2, 8, 3, some 1, some 1, .delete, .offer⟩,
      ⟨some 6001000000000, none, 8, 4, none, none, .new, .marketBestBid⟩,
      ⟨some 5002000000000, some 1, 7, 2, some 1, some 1, .new, .offer⟩], []⟩

theorem mixed_entries_published_by_run :
    let sd := SecurityDefinitions.load (fun _ => false) () ()
      [SecDef.sample 7 "ESZ5", SecDef.sample 8 "NQZ5"]
    let calls := (react {} sd {} {} (.book46 mixedEntries)).calls
    (calls.filter fun c => isMarketByPrice c.action).map (fun c => c.securityId) = [7, 8, 7] ∧
      (calls.filter fun c => isTopOfBook c.action).map (fun c => c.securityId) = [8] := by
  intro sd calls
  obtain ⟨hprices, htops⟩ := book46_published_by_run {} sd {} {} mixedEntries (by decide)
  constructor
  · refine (congrArg _ hprices).trans ?_
    decide +kernel
  · refine (congrArg _ htops).trans ?_
    decide +kernel

/-- A record of the secdef file may have no display factor. A best bid of its security has a price
and leads to no update of the top of book. -/
theorem no_top_of_book_without_display_factor :
    let item : SecDef := { SecDef.sample 7 "ESZ5" with displayFactor := none }
    let sd := SecurityDefinitions.load (fun _ => false) () () [item]
    let entries : List Book46.Entry :=
      [⟨some 5000000000000, none, 7, 1, none, none, .new, .marketBestBid⟩]
    (sd.getSecurity 7).isSome = true ∧ lastPrice .marketBestBid entries = some 5000000000000 ∧
      runs Book46.Entry.securityID entries = [entries] ∧
      (react {} sd {} {} (.book46 ⟨100, entries, []⟩)).calls.filter
        (fun c => isTopOfBook c.action) = [] := by
  decide +kernel

end RoqCme.MarketData
