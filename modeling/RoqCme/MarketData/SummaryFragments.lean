import Mathlib.Algebra.Order.BigOperators.Group.List
import Mathlib.Algebra.Order.Group.Int
import Mathlib.Data.List.Infix
import RoqCme.MarketData.BookReplay
import RoqCme.MarketData.SummaryOrders

/-! Trade summaries that arrive in fragments. Wherever the orders received so far are all that the
entries ask for, the fragments are published; what is published in the end does not depend on the
cuts. -/
namespace RoqCme.MarketData
open RoqCme.Lib RoqCme.Mdp RoqCme.Tools
variable {Qp Qo : Type}

/-- The trades that an effect publishes. -/
def Effect.trades : Effect → List Trade
  | .publish (.tradeSummary _ trades) => trades
  | _ => []

/-- The order updates that an effect submits with the action TRADE. -/
def Effect.tradeUpdates : Effect → List MBOUpdate
  | .submitMbo orders _ _ => orders.filter fun u => u.action = .trade
  | _ => []

def Action.trades : Action → List Trade
  | .tradeSummary trades => trades
  | _ => []

def Action.tradeUpdates : Action → List MBOUpdate
  | .dispatchMarketByOrder orders _ | .dispatchOrderBook47 orders =>
    orders.filter fun u => u.action = .trade
  | _ => []

section Output
variable {δ : Type} (ofEffect : Effect → List δ) (ofAction : Action → List δ)

/-- What is read off the effects of these records. -/
def outputIn (records : List Record) : List δ :=
  records.flatMap fun r => r.effects.flatMap ofEffect

/-- The effects of a call give what can be read off the call. -/
def ReadsOff (env : Env Qp Qo) : Prop :=
  ∀ (ctx : Context) (a : Action) (s : Security Qp Qo),
    (a.op env ctx s).2.flatMap ofEffect = ofAction a

/-- What the calls say about one security is what its records say. -/
theorem performAll_output {ofEffect : Effect → List δ} {ofAction : Action → List δ}
    {env : Env Qp Qo} (h : ReadsOff ofEffect ofAction env) (ctx : Context) (calls : List Call)
    (shared : Shared Qp Qo) (i : Int) :
    ∃ records, ((performAll env ctx calls shared).view i).records =
        (shared.view i).records ++ records ∧
      outputIn ofEffect records =
        if (shared.view i).security = none then [] else
          (calls.filter fun call => call.securityId = i).flatMap fun call =>
            ofAction call.action := by
  cases hs : (shared.view i).security with
  | none =>
    refine ⟨[], ?_, rfl⟩
    rw [view_performAll_none env ctx calls shared i hs, List.append_nil]
  | some s =>
    obtain ⟨records, hrecords, hmap⟩ := performAll_records (fun r => r.effects.flatMap ofEffect)
      ofAction env ctx calls shared i s hs (h ctx)
    refine ⟨records, hrecords, ?_⟩
    rw [if_neg (by simp), outputIn, List.flatMap_def, List.flatMap_def, ← hmap]

end Output

/-- A trade summary as a delivery. -/
theorem step_summary (env : Env Qp Qo) (f : Feeds Qp Qo) {d : Delivery} {value : TradeSummary}
    (hd : d.summary = some value) :
    ∃ ctx cache r, r = dispatchTradeSummary f.shared.securityDefinitions.getSecurity cache
        f.shared.pending value ∧
      (f.step env d).shared = performAll env ctx r.calls
        { f.shared with pending := r.pending, fault := f.shared.fault || r.fault } := by
  cases d with
  | incremental channelId streamId frame message =>
    have hm : tradeSummaryOf message = some value := hd
    have hsd : definitionsAfter env f.shared.securityDefinitions message =
        f.shared.securityDefinitions := by
      cases message with
      | tradeSummary48 | tradeSummaryLongQty65 => rfl
      | _ => cases hm
    refine ⟨⟨streamId, frame, (dispatchTradeSummary f.shared.securityDefinitions.getSecurity
      (f.caches channelId) f.shared.pending value).exchangeTimeUtc⟩, f.caches channelId, _, rfl, ?_⟩
    simp only [Feeds.step, Incremental.onMessage, hsd, react_tradeSummary env.options _ _ _ hm]
  | _ => cases hd

/-- A reader of effects that overlooks what a sequencer calls back for. -/
def OverlooksEchoes {δ : Type} (ofEffect : Effect → List δ) : Prop :=
  ∀ book e, Echo book e → ofEffect e = []

/-- Such a reader sees the submission of a dispatch and nothing else. -/
theorem OverlooksEchoes.dispatchMarketByPrice {δ : Type} {ofEffect : Effect → List δ}
    (h : OverlooksEchoes ofEffect) (env : Env Qp Qo) (ctx : Context) (bids asks : List MBPUpdate)
    (isSnapshot : Bool) (s : Security Qp Qo) :
    ∃ mode, (dispatchMarketByPrice env ctx bids asks isSnapshot s).2.flatMap ofEffect =
      ofEffect (.submitMbp (bids, asks) ctx.frame.sequenceNumber mode) := by
  obtain ⟨echoes, hm, heq⟩ := dispatchMarketByPrice_eq env ctx bids asks isSnapshot s
  have hnil : echoes.flatMap ofEffect = [] := by
    rw [List.flatMap_eq_nil_iff]
    exact fun e he => h .mbp e (hm e he)
  rw [heq, List.flatMap_cons, hnil, List.append_nil]
  exact ⟨_, rfl⟩

theorem OverlooksEchoes.dispatchMarketByOrder {δ : Type} {ofEffect : Effect → List δ}
    (h : OverlooksEchoes ofEffect) (env : Env Qp Qo) (ctx : Context) (orders : List MBOUpdate)
    (isSnapshot : Bool) (s : Security Qp Qo) :
    ∃ mode, (dispatchMarketByOrder env ctx orders isSnapshot s).2.flatMap ofEffect =
      ofEffect (.submitMbo orders ctx.frame.sequenceNumber mode) := by
  obtain ⟨echoes, hm, heq⟩ := dispatchMarketByOrder_eq env ctx orders isSnapshot s
  have hnil : echoes.flatMap ofEffect = [] := by
    rw [List.flatMap_eq_nil_iff]
    exact fun e he => h .mbo e (hm e he)
  rw [heq, List.flatMap_cons, hnil, List.append_nil]
  exact ⟨_, rfl⟩

theorem reads_trades (env : Env Qp Qo) : ReadsOff Effect.trades Action.trades env := by
  intro ctx a s
  have hecho : OverlooksEchoes Effect.trades := by
    intro book e he
    cases he with
    | price | order | mark | clear => rfl
  cases a with
  | checkReportSequence rptSeq =>
    simp only [Action.op, checkReportSequence]
    split
    · rfl
    · rfl
  | dispatchMarketByPrice bids asks isSnapshot =>
    obtain ⟨mode, h⟩ := hecho.dispatchMarketByPrice env ctx bids asks isSnapshot s
    exact h
  | dispatchMarketByOrder orders isSnapshot =>
    obtain ⟨mode, h⟩ := hecho.dispatchMarketByOrder env ctx orders isSnapshot s
    exact h
  | dispatchOrderBook47 orders =>
    obtain ⟨mode, h⟩ := hecho.dispatchMarketByOrder env ctx orders (decide (s.rptSeq = 0)) s
    exact h
  | tradeSummary trades => exact List.append_nil trades
  | referenceData value =>
    simp only [Action.op]
    split
    · rfl
    · rfl
  | topOfBook | statistics | marketStatus => rfl

theorem reads_tradeUpdates (env : Env Qp Qo) :
    ReadsOff Effect.tradeUpdates Action.tradeUpdates env := by
  intro ctx a s
  have hecho : OverlooksEchoes Effect.tradeUpdates := by
    intro book e he
    cases he with
    | price | order | mark | clear => rfl
  cases a with
  | checkReportSequence rptSeq =>
    simp only [Action.op, checkReportSequence]
    split
    · rfl
    · rfl
  | dispatchMarketByPrice bids asks isSnapshot =>
    obtain ⟨mode, h⟩ := hecho.dispatchMarketByPrice env ctx bids asks isSnapshot s
    exact h
  | dispatchMarketByOrder orders isSnapshot =>
    obtain ⟨mode, h⟩ := hecho.dispatchMarketByOrder env ctx orders isSnapshot s
    exact h
  | dispatchOrderBook47 orders =>
    obtain ⟨mode, h⟩ := hecho.dispatchMarketByOrder env ctx orders (decide (s.rptSeq = 0)) s
    exact h
  | referenceData value =>
    simp only [Action.op]
    split
    · rfl
    · rfl
  | topOfBook | statistics | marketStatus | tradeSummary => rfl

/-- The calls for one security, each of which occurs once. -/
theorem callsFor_filter {δ : Type} (get : Lookup Qp Qo) (items : Int → Security Qp Qo → List δ)
    (action : List δ → Action) {ids : List Int} (hn : ids.Nodup) (i : Int) :
    ((callsFor get items action ids).filter fun call => call.securityId = i) =
      if i ∈ ids then callsFor get items action [i] else [] := by
  induction ids with
  | nil => rfl
  | cons j ids ih =>
    obtain ⟨hj, hids⟩ := List.nodup_cons.1 hn
    have hhead : callsFor get items action [j] ++ callsFor get items action ids =
        callsFor get items action (j :: ids) := by simp [callsFor]
    have hown : ∀ call ∈ callsFor get items action [j], call.securityId = j := by
      intro call hc
      simp only [callsFor, List.flatMap_singleton] at hc
      split at hc
      · cases hc
      · split at hc
        · cases hc
        · rw [List.mem_singleton.1 hc]
    rw [← hhead, List.filter_append, ih hids]
    by_cases hi : i = j
    · subst hi
      rw [if_neg hj, if_pos List.mem_cons_self, List.append_nil, List.filter_eq_self]
      simpa using hown
    · have hnone : ((callsFor get items action [j]).filter fun call => call.securityId = i) = [] := by
        rw [List.filter_eq_nil_iff]
        intro call hc
        simpa [hown call hc] using Ne.symm hi
      rw [hnone, List.nil_append]
      simp [hi]

theorem eraseDups_nodup (ids : List Int) : ids.eraseDups.Nodup := by
  induction ids using List.reverseRecOn with
  | nil => exact List.nodup_nil
  | append_singleton ids i ih =>
    rw [eraseDups_concat]
    split
    · exact ih
    · next hi =>
      rw [← List.concat_eq_append]
      exact ih.concat hi

theorem mboUpdatesOf_trade (e : SummaryEntry) (factor : Double) (slice : List (Nat × Int)) :
    ((e.mboUpdatesOf factor slice).filter fun u => u.action = .trade) =
      e.mboUpdatesOf factor slice := by
  have hmap : ∀ side (orders : List (Nat × Int)),
      ((orders.map (e.mboTrade factor side)).filter fun u => u.action = .trade) =
        orders.map (e.mboTrade factor side) := by
    intro side orders
    rw [List.filter_eq_self]
    intro u hu
    obtain ⟨order, -, rfl⟩ := List.mem_map.1 hu
    rfl
  cases slice with
  | nil => rfl
  | cons first rest =>
    rw [SummaryEntry.mboUpdatesOf]
    split
    · exact hmap _ _
    · split
      · exact hmap _ _
      · exact hmap _ _

/-- What one security is told about these entries and orders. -/
def outputFor {δ : Type} (g : SummaryEntry → Double → List (Nat × Int) → List δ)
    (security : Option (Security Qp Qo)) (i : Int) (entries : List SummaryEntry)
    (orders : List (Nat × Int)) : List δ :=
  match security with
  | none => []
  | some security => slicesFor g entries orders i security

/-- Both passes over the entries leave out a security that has none. -/
theorem slicesFor_of_not_mem {δ : Type} (g : SummaryEntry → Double → List (Nat × Int) → List δ)
    (entries : List SummaryEntry) (orders : List (Nat × Int)) {i : Int}
    (security : Security Qp Qo) (hi : i ∉ entries.map SummaryEntry.securityId) :
    slicesFor g entries orders i security = [] := by
  rw [slicesFor, List.flatMap_eq_nil_iff]
  intro p hp
  have hmem : p.1 ∈ (slices SummaryEntry.numberOfOrders entries orders).map Prod.fst :=
    List.mem_map_of_mem hp
  rw [slices_map_fst] at hmem
  rw [if_neg]
  intro he
  exact hi (he ▸ List.mem_map_of_mem hmem)

/-- One of the two passes, seen from one security. -/
theorem callsFor_output {δ ε : Type} (get : Lookup Qp Qo)
    (g : SummaryEntry → Double → List (Nat × Int) → List δ) {action : List δ → Action}
    {ofAction : Action → List ε} (read : List δ → List ε)
    (hread : ∀ items, ofAction (action items) = read items) (hnil : read [] = [])
    (entries : List SummaryEntry) (orders : List (Nat × Int)) (i : Int) :
    ((callsFor get (slicesFor g entries orders) action
        (entries.map SummaryEntry.securityId).eraseDups).filter fun call =>
          call.securityId = i).flatMap (fun call => ofAction call.action) =
      read (outputFor g (get i) i entries orders) := by
  rw [callsFor_filter get _ action (eraseDups_nodup _) i]
  by_cases hi : i ∈ entries.map SummaryEntry.securityId
  · rw [if_pos (List.mem_eraseDups.2 hi), callsFor, List.flatMap_singleton]
    cases get i with
    | none => exact hnil.symm
    | some security =>
      simp only [outputFor]
      split
      · next h => rw [h, hnil]; rfl
      · simp [hread]
  · rw [if_neg (fun h => hi (List.mem_eraseDups.1 h))]
    cases get i with
    | none => exact hnil.symm
    | some security =>
      simp only [outputFor, slicesFor_of_not_mem g entries orders security hi, hnil]
      rfl

/-- What is read off the effects of a complete summary for a security is `g` of its slices. -/
structure ReadsSummary {δ : Type} (env : Env Qp Qo) (ofEffect : Effect → List δ)
    (ofAction : Action → List δ) (g : SummaryEntry → Double → List (Nat × Int) → List δ) :
    Prop where
  effects : ReadsOff ofEffect ofAction env
  reports : ∀ rptSeq, ofAction (.checkReportSequence rptSeq) = []
  calls : ∀ (get : Lookup Qp Qo) entries orders i,
    ((summaryCalls get entries orders).filter fun call => call.securityId = i).flatMap
      (fun call => ofAction call.action) = outputFor g (get i) i entries orders

theorem readsSummary_trades (env : Env Qp Qo) :
    ReadsSummary env Effect.trades Action.trades SummaryEntry.tradesOf where
  effects := reads_trades env
  reports _ := rfl
  calls get entries orders i := by
    rw [summaryCalls, List.filter_append, List.flatMap_append,
      callsFor_output get SummaryEntry.tradesOf id (fun _ => rfl) rfl,
      callsFor_output get SummaryEntry.mboUpdatesOf (fun _ => []) (fun _ => rfl) rfl]
    rfl

theorem readsSummary_tradeUpdates (env : Env Qp Qo) :
    ReadsSummary env Effect.tradeUpdates Action.tradeUpdates SummaryEntry.mboUpdatesOf where
  effects := reads_tradeUpdates env
  reports _ := rfl
  calls get entries orders i := by
    rw [summaryCalls, List.filter_append, List.flatMap_append,
      callsFor_output get SummaryEntry.tradesOf (fun _ => []) (fun _ => rfl) rfl,
      callsFor_output get SummaryEntry.mboUpdatesOf (List.filter fun u => u.action = .trade)
        (fun _ => rfl) rfl, List.append_nil]
    cases get i with
    | none => rfl
    | some security =>
      simp only [outputFor, slicesFor, List.filter_flatMap]
      congr 1
      funext p
      split
      · exact mboUpdatesOf_trade p.1 security.displayFactor p.2
      · rfl

section Read
variable {δ : Type} {env : Env Qp Qo} {ofEffect : Effect → List δ} {ofAction : Action → List δ}
  {g : SummaryEntry → Double → List (Nat × Int) → List δ}

theorem ReadsSummary.reportCalls (h : ReadsSummary env ofEffect ofAction g) (get : Lookup Qp Qo)
    (items : List TradeSummary.Entry) (i : Int) :
    ((MarketData.reportCalls get items).filter fun call => call.securityId = i).flatMap
      (fun call => ofAction call.action) = [] := by
  rw [List.flatMap_eq_nil_iff]
  intro call hc
  obtain ⟨item, -, hc⟩ := List.mem_flatMap.1 (List.mem_of_mem_filter hc)
  split at hc
  · rw [List.mem_singleton.1 hc]
    exact h.reports _
  · cases hc

theorem dispatchTradeSummary_waits (get : Lookup Qp Qo) (cache : Cache)
    {pending : PendingSummary} {value : TradeSummary} {t : Nat} {entries : List SummaryEntry}
    {orders : List (Nat × Int)} (h : pending.assemble value = .of t entries orders)
    (hlt : orders.length < ordersAsked entries) (hsize : ordersAsked entries < 2 ^ 64) :
    dispatchTradeSummary get cache pending value =
      { cache := cache, pending := .of t entries orders, exchangeTimeUtc := value.transactTime
        calls := MarketData.reportCalls get value.noMDEntries } := by
  have htotal : orders.length < (PendingSummary.of t entries orders).totalNumberOfOrders :=
    hlt.trans_eq (Nat.mod_eq_of_lt hsize).symm
  have horders : (PendingSummary.of t entries orders).orders = orders := rfl
  rw [dispatchTradeSummary]
  simp only [h, horders, htotal, if_true]

/-- What is read off the effects of one trade summary message. -/
theorem ReadsSummary.message (h : ReadsSummary env ofEffect ofAction g) (f : Feeds Qp Qo)
    {d : Delivery} {value : TradeSummary} (hd : d.summary = some value) {t : Nat}
    {entries : List SummaryEntry} {orders : List (Nat × Int)}
    (hp : f.shared.pending.assemble value = .of t entries orders)
    (hsize : ordersAsked entries < 2 ^ 64) (htaker : ∀ e ∈ entries, e.TakerCounted) (i : Int) :
    outputIn ofEffect (f.recordsOf env d i) =
      if orders.length < ordersAsked entries then []
      else outputFor g (f.shared.securityDefinitions.getSecurity i) i entries orders := by
  obtain ⟨ctx, cache, r, hr, hstep⟩ := step_summary env f hd
  obtain ⟨records, hrecords, hout⟩ := performAll_output h.effects ctx r.calls
    { f.shared with pending := r.pending, fault := f.shared.fault || r.fault } i
  have hnew : f.recordsOf env d i = records := by
    rw [Feeds.recordsOf, hstep, hrecords]
    simp [Shared.view]
  have hcalls : (r.calls.filter fun call => call.securityId = i).flatMap
      (fun call => ofAction call.action) = if orders.length < ordersAsked entries then []
      else outputFor g (f.shared.securityDefinitions.getSecurity i) i entries orders := by
    rw [hr]
    by_cases hlt : orders.length < ordersAsked entries
    · rw [if_pos hlt, dispatchTradeSummary_waits _ _ hp hlt hsize]
      exact h.reportCalls _ _ _
    · rw [if_neg hlt, dispatchTradeSummary_complete _ _ hp (by omega) hsize htaker]
      rw [List.filter_append, List.flatMap_append, h.reportCalls, h.calls, List.nil_append]
  rw [hnew, hout, hcalls]
  by_cases hs : f.shared.securityDefinitions.securities i = none
  · have hget : f.shared.securityDefinitions.getSecurity i = none := by
      simp [SecurityDefinitions.getSecurity, hs]
    rw [hget]
    simp [Shared.view, hs, outputFor]
  · exact if_neg hs

end Read

theorem outputFor_append {δ : Type} (g : SummaryEntry → Double → List (Nat × Int) → List δ)
    (security : Option (Security Qp Qo)) (i : Int) (entries more : List SummaryEntry)
    (orders rest : List (Nat × Int)) (h : ordersAsked entries = orders.length) :
    outputFor g security i (entries ++ more) (orders ++ rest) =
      outputFor g security i entries orders ++ outputFor g security i more rest := by
  cases security with
  | none => rfl
  | some security =>
    simp only [outputFor, slicesFor, slices_append SummaryEntry.numberOfOrders _ _ _ _ h,
      List.flatMap_append]

/-- Only the display factor of the security matters. -/
theorem outputFor_same {δ : Type} (g : SummaryEntry → Double → List (Nat × Int) → List δ)
    {s s' : Security Qp Qo} (h : SameInstrument s s') (i : Int) (entries : List SummaryEntry)
    (orders : List (Nat × Int)) :
    outputFor g (some s') i entries orders = outputFor g (some s) i entries orders := by
  simp only [outputFor, slicesFor, h.displayFactor]

/-- The entries and orders that wait, or nothing of this transact time. -/
def AwaitsOrders (p : PendingSummary) (t : Nat) (entries : List SummaryEntry)
    (orders : List (Nat × Int)) : Prop :=
  (p = .of t entries orders ∧ orders.length < ordersAsked entries) ∨
    (entries = [] ∧ orders = [] ∧ (t ≠ p.transactTime ∨ p = {}))

theorem AwaitsOrders.assemble {p : PendingSummary} {t : Nat} {entries : List SummaryEntry}
    {orders : List (Nat × Int)} (h : AwaitsOrders p t entries orders) {value : TradeSummary}
    (ht : value.transactTime = t) :
    p.assemble value = .of t (entries ++ entriesIn [value]) (orders ++ ordersIn [value]) := by
  obtain ⟨rfl, -⟩ | ⟨rfl, rfl, hidle⟩ := h
  · exact assemble_of entries orders ht
  · subst ht
    exact assemble_fresh_of hidle

theorem AwaitsOrders.next {p : PendingSummary} {t : Nat} {entries : List SummaryEntry}
    {orders : List (Nat × Int)} (h : AwaitsOrders p t entries orders) {value : TradeSummary}
    (ht : value.transactTime = t) (hsize : ordersAsked (entries ++ entriesIn [value]) < 2 ^ 64) :
    p.next value =
      if (orders ++ ordersIn [value]).length < ordersAsked (entries ++ entriesIn [value]) then
        .of t (entries ++ entriesIn [value]) (orders ++ ordersIn [value])
      else {} := by
  have htotal : (PendingSummary.of t (entries ++ entriesIn [value])
      (orders ++ ordersIn [value])).totalNumberOfOrders = ordersAsked (entries ++ entriesIn [value]) :=
    Nat.mod_eq_of_lt hsize
  rw [PendingSummary.next, h.assemble ht, htotal]
  rfl

/-- These messages bring what is missing of these entries and orders, and no order ahead of its
entry. -/
structure Completes (t : Nat) (entries : List SummaryEntry) (orders : List (Nat × Int))
    (values : List TradeSummary) : Prop where
  time : ∀ value ∈ values, value.transactTime = t
  size : ordersAsked (entries ++ entriesIn values) < 2 ^ 64
  takers : ∀ e ∈ entries ++ entriesIn values, e.TakerCounted
  ahead : ∀ received, received <+: values →
    (orders ++ ordersIn received).length ≤ ordersAsked (entries ++ entriesIn received)
  total : ordersAsked (entries ++ entriesIn values) = (orders ++ ordersIn values).length

namespace Completes
variable {t : Nat} {entries : List SummaryEntry} {orders : List (Nat × Int)} {value : TradeSummary}
  {values : List TradeSummary}

theorem entriesIn_cons (value : TradeSummary) (values : List TradeSummary) :
    entriesIn (value :: values) = entriesIn [value] ++ entriesIn values := by simp [entriesIn]

theorem ordersIn_cons (value : TradeSummary) (values : List TradeSummary) :
    ordersIn (value :: values) = ordersIn [value] ++ ordersIn values := by simp [ordersIn]

/-- With the first message. -/
theorem tail (h : Completes t entries orders (value :: values)) :
    Completes t (entries ++ entriesIn [value]) (orders ++ ordersIn [value]) values where
  time v hv := h.time v (List.mem_cons_of_mem value hv)
  size := by
    rw [List.append_assoc, ← entriesIn_cons]
    exact h.size
  takers := by
    rw [List.append_assoc, ← entriesIn_cons]
    exact h.takers
  ahead received hr := by
    rw [List.append_assoc, List.append_assoc, ← entriesIn_cons, ← ordersIn_cons]
    exact h.ahead _ (List.cons_prefix_cons.2 ⟨rfl, hr⟩)
  total := by
    rw [List.append_assoc, List.append_assoc, ← entriesIn_cons, ← ordersIn_cons]
    exact h.total

/-- What is balanced already can be left out. -/
theorem published (h : Completes t entries orders values) (hb : ordersAsked entries = orders.length) :
    Completes t [] [] values where
  time := h.time
  size := by
    have hsize := h.size
    rw [ordersAsked_append] at hsize
    rw [List.nil_append]
    omega
  takers e he := h.takers e (List.mem_append_right _ (by simpa using he))
  ahead received hr := by
    have hle := h.ahead received hr
    rw [ordersAsked_append, List.length_append, hb] at hle
    rw [List.nil_append, List.nil_append]
    omega
  total := by
    have htotal := h.total
    rw [ordersAsked_append, List.length_append, hb] at htotal
    rw [List.nil_append, List.nil_append]
    omega

/-- So far no order is ahead of its entry. -/
theorem le (h : Completes t entries orders values) : orders.length ≤ ordersAsked entries := by
  have hle := h.ahead [] (List.nil_prefix)
  simpa [entriesIn, ordersIn] using hle

theorem here (h : Completes t entries orders values) :
    ordersAsked entries < 2 ^ 64 ∧ ∀ e ∈ entries, e.TakerCounted := by
  have hsize := h.size
  rw [ordersAsked_append] at hsize
  exact ⟨by omega, fun e he => h.takers e (List.mem_append_left _ he)⟩

end Completes

/-- What is read off the trade summaries of a run, for one security. -/
def Feeds.summaryOutput {δ : Type} (env : Env Qp Qo) (ofEffect : Effect → List δ) (i : Int) :
    List Delivery → Feeds Qp Qo → List δ
  | [], _ => []
  | d :: deliveries, f =>
    (if d.summary.isSome then outputIn ofEffect (f.recordsOf env d i) else []) ++
      Feeds.summaryOutput env ofEffect i deliveries (f.step env d)

/-- The security is not defined in the course of the run. -/
def Feeds.Settled (env : Env Qp Qo) (deliveries : List Delivery) (f : Feeds Qp Qo) (i : Int) : Prop :=
  (f.shared.securityDefinitions.getSecurity i).isSome ∨
    (Feeds.run env deliveries f).shared.securityDefinitions.getSecurity i = none

theorem Feeds.Settled.step {env : Env Qp Qo} {d : Delivery} {deliveries : List Delivery}
    {f : Feeds Qp Qo} {i : Int} (h : f.Settled env (d :: deliveries) i) :
    (f.step env d).Settled env deliveries i ∧
      ∀ {δ : Type} (g : SummaryEntry → Double → List (Nat × Int) → List δ) entries orders,
        outputFor g ((f.step env d).shared.securityDefinitions.getSecurity i) i entries orders =
          outputFor g (f.shared.securityDefinitions.getSecurity i) i entries orders := by
  cases hs : f.shared.securityDefinitions.getSecurity i with
  | some s =>
    obtain ⟨s', hs', hsame, -⟩ := (step_grown env f d).getSecurity hs
    refine ⟨Or.inl (by rw [hs']; rfl), ?_⟩
    intro δ g entries orders
    rw [hs']
    exact outputFor_same g hsame i entries orders
  | none =>
    obtain hsome | hend := h
    · rw [hs] at hsome
      cases hsome
    · refine ⟨Or.inr hend, ?_⟩
      intro δ g entries orders
      cases hnext : (f.step env d).shared.securityDefinitions.getSecurity i with
      | none => rfl
      | some s =>
        obtain ⟨s', hs', -⟩ := (run_grown env deliveries (f.step env d)).getSecurity hnext
        have hnone : (Feeds.run env deliveries (f.step env d)).shared.securityDefinitions.getSecurity
            i = none := hend
        rw [hs'] at hnone
        cases hnone

/-- The messages that complete a summary publish it in parts that add up, and leave nothing. -/
theorem ReadsSummary.run {δ : Type} {env : Env Qp Qo} {ofEffect : Effect → List δ}
    {ofAction : Action → List δ} {g : SummaryEntry → Double → List (Nat × Int) → List δ}
    (h : ReadsSummary env ofEffect ofAction g) {t : Nat} {i : Int} (deliveries : List Delivery)
    (f : Feeds Qp Qo) {entries : List SummaryEntry} {orders : List (Nat × Int)}
    (hp : AwaitsOrders f.shared.pending t entries orders)
    (hc : Completes t entries orders (summariesOf deliveries))
    (hi : f.Settled env deliveries i) :
    f.summaryOutput env ofEffect i deliveries =
      outputFor g (f.shared.securityDefinitions.getSecurity i) i
        (entries ++ entriesIn (summariesOf deliveries))
        (orders ++ ordersIn (summariesOf deliveries)) := by
  induction deliveries generalizing f entries orders with
  | nil =>
    obtain ⟨-, hlt⟩ | ⟨rfl, rfl, -⟩ := hp
    · have htotal := hc.total
      simp only [summariesOf, entriesIn, ordersIn, List.filterMap_nil, List.flatMap_nil,
        List.append_nil] at htotal
      omega
    · cases f.shared.securityDefinitions.getSecurity i with
      | none => rfl
      | some s => rfl
  | cons d deliveries ih =>
    obtain ⟨hsettled, hsame⟩ := hi.step
    cases hd : d.summary with
    | none =>
      have hsum : summariesOf (d :: deliveries) = summariesOf deliveries := by
        simp [summariesOf, hd]
      have hstep := step_next env f d
      rw [hd] at hstep
      rw [hsum] at hc ⊢
      rw [Feeds.summaryOutput, ih (f.step env d) (by rw [hstep]; exact hp) hc hsettled, hsame, hd]
      rfl
    | some value =>
      have hsum : summariesOf (d :: deliveries) = value :: summariesOf deliveries := by
        simp [summariesOf, hd]
      rw [hsum] at hc
      have ht := hc.time value List.mem_cons_self
      have hrest := hc.tail
      obtain ⟨hsize, htaker⟩ := hrest.here
      have hnext := step_next env f d
      simp only [hd, hp.next ht hsize] at hnext
      have hhere := h.message f hd (hp.assemble ht) hsize htaker i
      rw [Feeds.summaryOutput, hd, Option.isSome_some, if_pos rfl, hhere, hsum,
        Completes.entriesIn_cons value (summariesOf deliveries),
        Completes.ordersIn_cons value (summariesOf deliveries), ← List.append_assoc,
        ← List.append_assoc]
      by_cases hlt : (orders ++ ordersIn [value]).length < ordersAsked (entries ++ entriesIn [value])
      · rw [if_pos hlt] at hnext ⊢
        rw [ih (f.step env d) (Or.inl ⟨hnext, hlt⟩) hrest hsettled, hsame]
        rfl
      · have hb := Nat.le_antisymm (Nat.le_of_not_lt hlt) hrest.le
        rw [if_neg hlt] at hnext ⊢
        rw [ih (f.step env d) (Or.inr ⟨rfl, rfl, Or.inr hnext⟩) (hrest.published hb) hsettled, hsame,
          outputFor_append g _ i _ _ _ _ hb]
        rfl

/-- After the last of them nothing is pending. -/
theorem Completes.foldl_next {t : Nat} {entries : List SummaryEntry} {orders : List (Nat × Int)}
    {values : List TradeSummary} (hc : Completes t entries orders values) {p : PendingSummary}
    (hp : AwaitsOrders p t entries orders) (hn : values ≠ [] ∨ p = {}) :
    values.foldl PendingSummary.next p = {} := by
  induction values generalizing p entries orders with
  | nil => exact hn.resolve_left fun h => h rfl
  | cons value values ih =>
    have hrest := hc.tail
    have hnext := hp.next (hc.time value List.mem_cons_self) hrest.here.1
    rw [List.foldl_cons]
    by_cases hlt : (orders ++ ordersIn [value]).length < ordersAsked (entries ++ entriesIn [value])
    · rw [if_pos hlt] at hnext
      refine ih hrest (Or.inl ⟨hnext, hlt⟩) (Or.inl ?_)
      rintro rfl
      have htotal := hrest.total
      simp only [entriesIn, ordersIn, List.flatMap_nil, List.append_nil] at htotal hlt
      omega
    · have hb := Nat.le_antisymm (Nat.le_of_not_lt hlt) hrest.le
      rw [if_neg hlt] at hnext
      exact ih (hrest.published hb) (Or.inr ⟨rfl, rfl, Or.inr hnext⟩) (Or.inr hnext)

/-- The counts are those of the orders, and the order of every aggressor is counted. A list in memory
has fewer than 2^64 elements. -/
structure BalancedSummary (value : TradeSummary) : Prop where
  counts : ∀ item ∈ value.noMDEntries, 0 ≤ item.numberOfOrders
  takers : ∀ item ∈ value.noMDEntries,
    item.aggressorSide.map ≠ .undefined → 1 ≤ item.numberOfOrders
  total : (value.noMDEntries.map TradeSummary.Entry.numberOfOrders).sum =
    value.noOrderIDEntries.length
  size : value.noOrderIDEntries.length < 2 ^ 64

/-- The message is cut into consecutive fragments, so that no order comes ahead of its entry. -/
structure CutInto (value : TradeSummary) (fragments : List TradeSummary) : Prop where
  nonempty : fragments ≠ []
  time : ∀ fragment ∈ fragments, fragment.transactTime = value.transactTime
  entries : fragments.flatMap TradeSummary.noMDEntries = value.noMDEntries
  orders : fragments.flatMap TradeSummary.noOrderIDEntries = value.noOrderIDEntries
  ahead : ∀ received, received <+: fragments →
    ((received.flatMap TradeSummary.noOrderIDEntries).length : Int) ≤
      ((received.flatMap TradeSummary.noMDEntries).map TradeSummary.Entry.numberOfOrders).sum

theorem entriesIn_eq (values : List TradeSummary) :
    entriesIn values = (values.flatMap TradeSummary.noMDEntries).map SummaryEntry.ofItem := by
  rw [entriesIn, List.map_flatMap]

theorem ordersIn_length (values : List TradeSummary) :
    (ordersIn values).length = (values.flatMap TradeSummary.noOrderIDEntries).length := by
  rw [ordersIn, ← List.map_flatMap, List.length_map]

namespace BalancedSummary
variable {value : TradeSummary} (h : BalancedSummary value)
include h

/-- A count is not changed by the conversion to size_t. -/
theorem toSize_eq {item : TradeSummary.Entry} (hi : item ∈ value.noMDEntries) :
    (toSize item.numberOfOrders : Int) = item.numberOfOrders := by
  have hle : item.numberOfOrders ≤
      (value.noMDEntries.map TradeSummary.Entry.numberOfOrders).sum := by
    refine List.single_le_sum ?_ _ (List.mem_map_of_mem hi)
    intro n hn
    obtain ⟨item', hi', rfl⟩ := List.mem_map.1 hn
    exact h.counts item' hi'
  have hnonneg := h.counts item hi
  have hsize := h.size
  rw [h.total] at hle
  rw [toSize, Int.toNat_of_nonneg (Int.emod_nonneg _ (by decide)), Int.emod_eq_of_lt hnonneg]
  omega

theorem asked_eq {items : List TradeSummary.Entry} (hi : ∀ item ∈ items, item ∈ value.noMDEntries) :
    (ordersAsked (items.map SummaryEntry.ofItem) : Int) =
      (items.map TradeSummary.Entry.numberOfOrders).sum := by
  induction items with
  | nil => rfl
  | cons item items ih =>
    have hrest := ih fun item' h' => hi item' (List.mem_cons_of_mem item h')
    have hitem := h.toSize_eq (hi item List.mem_cons_self)
    rw [List.map_cons, List.map_cons, List.sum_cons, ← hrest, ← hitem, ordersAsked, List.map_cons,
      List.sum_cons, ← ordersAsked, Int.natCast_add]
    rfl

theorem taker {e : SummaryEntry} (he : e ∈ value.noMDEntries.map SummaryEntry.ofItem) :
    e.TakerCounted := by
  obtain ⟨item, hi, rfl⟩ := List.mem_map.1 he
  intro ha
  have hone := h.takers item hi ha
  have hsize := h.toSize_eq hi
  have hcount : (SummaryEntry.ofItem item).numberOfOrders = toSize item.numberOfOrders := rfl
  omega

/-- The fragments bring the whole message. -/
theorem completes {fragments : List TradeSummary} (hc : CutInto value fragments) :
    Completes value.transactTime [] [] fragments := by
  have hitems : ∀ received, received <+: fragments →
      ∀ item ∈ received.flatMap TradeSummary.noMDEntries, item ∈ value.noMDEntries := by
    intro received hr item hi
    obtain ⟨fragment, hf, hi⟩ := List.mem_flatMap.1 hi
    rw [← hc.entries]
    exact List.mem_flatMap.2 ⟨fragment, hr.subset hf, hi⟩
  have hall := h.asked_eq (fun item hi => hi)
  have htotal := h.total
  have hlength := h.size
  refine ⟨hc.time, ?_, ?_, ?_, ?_⟩
  · rw [List.nil_append, entriesIn_eq, hc.entries]
    omega
  · rw [List.nil_append, entriesIn_eq, hc.entries]
    exact fun e he => h.taker he
  · intro received hr
    have hle := hc.ahead received hr
    have hasked := h.asked_eq (hitems received hr)
    rw [List.nil_append, List.nil_append, entriesIn_eq, ordersIn_length]
    omega
  · rw [List.nil_append, List.nil_append, entriesIn_eq, ordersIn_length, hc.entries, hc.orders]
    omega

/-- One fragment is a cut, too. -/
theorem cutInto_self : CutInto value [value] where
  nonempty := List.cons_ne_nil _ _
  time := by simp
  entries := by simp
  orders := by simp
  ahead received hr := by
    cases received with
    | nil => simp
    | cons first rest =>
      obtain ⟨rfl, hrest⟩ := List.cons_prefix_cons.1 hr
      rw [List.prefix_nil.1 hrest]
      simp [h.total]

end BalancedSummary

/-- Trade summaries define no security. -/
theorem summary_getSecurity_none (env : Env Qp Qo) (f : Feeds Qp Qo) {d : Delivery}
    (hd : d.summary.isSome) {i : Int} (h : f.shared.securityDefinitions.getSecurity i = none) :
    (f.step env d).shared.securityDefinitions.getSecurity i = none := by
  obtain ⟨value, hv⟩ := Option.isSome_iff_exists.1 hd
  cases hs : f.shared.securityDefinitions.securities i with
  | none =>
    obtain ⟨ctx, cache, r, -, hstep⟩ := step_summary env f hv
    have hview := congrArg View.security (view_performAll_none env ctx r.calls
      { f.shared with pending := r.pending, fault := f.shared.fault || r.fault } i hs)
    rw [← hstep] at hview
    simp only [Shared.view, hs] at hview
    simp [SecurityDefinitions.getSecurity, hview]
  | some s =>
    obtain ⟨s', hs', hsame⟩ := step_grown env f d i s hs
    have hdiscard : s.discard = true := by
      by_contra hne
      rw [Bool.not_eq_true] at hne
      rw [getSecurity_eq_some.2 ⟨hs, hne⟩] at h
      cases h
    simp [SecurityDefinitions.getSecurity, hs', hsame.discard, hdiscard]

theorem settled_of_summaries (env : Env Qp Qo) (deliveries : List Delivery)
    (hd : ∀ d ∈ deliveries, d.summary.isSome) (f : Feeds Qp Qo) (i : Int) :
    f.Settled env deliveries i := by
  cases hs : f.shared.securityDefinitions.getSecurity i with
  | some s => exact Or.inl (by rw [hs]; rfl)
  | none =>
    right
    induction deliveries generalizing f with
    | nil => exact hs
    | cons d deliveries ih =>
      exact ih (fun d' h' => hd d' (List.mem_cons_of_mem d h')) (f.step env d)
        (summary_getSecurity_none env f (hd d List.mem_cons_self) hs)

/-- A balanced trade summary that finds nothing of its transact time pending, and the same in any
fragments, with any other messages in between but no other trade summary: every security is told the
same trades and the same order updates, and nothing is pending in the end. A security must not be
defined between the fragments, which trade summaries never do. -/
theorem summary_fragments_transparent (env : Env Qp Qo) (f : Feeds Qp Qo) (value : TradeSummary)
    (hv : BalancedSummary value)
    (hidle : value.transactTime ≠ f.shared.pending.transactTime ∨ f.shared.pending = {})
    (whole : Delivery) (hwhole : whole.summary = some value) (deliveries : List Delivery)
    (hcut : CutInto value (summariesOf deliveries)) :
    (∀ i, f.Settled env deliveries i →
      f.summaryOutput env Effect.trades i deliveries =
          outputIn Effect.trades (f.recordsOf env whole i) ∧
        f.summaryOutput env Effect.tradeUpdates i deliveries =
          outputIn Effect.tradeUpdates (f.recordsOf env whole i)) ∧
      ((∀ d ∈ deliveries, d.summary.isSome) → ∀ i, f.Settled env deliveries i) ∧
      (Feeds.run env deliveries f).shared.pending = {} := by
  have hstart : AwaitsOrders f.shared.pending value.transactTime [] [] := Or.inr ⟨rfl, rfl, hidle⟩
  have hcompletes := hv.completes hcut
  have hone : Completes value.transactTime [] [] (summariesOf [whole]) := by
    rw [summariesOf, List.filterMap_cons_some hwhole]
    exact hv.completes hv.cutInto_self
  have hsame : ∀ {δ : Type} {ofEffect : Effect → List δ} {ofAction : Action → List δ}
      {g : SummaryEntry → Double → List (Nat × Int) → List δ},
      ReadsSummary env ofEffect ofAction g → ∀ i, f.Settled env deliveries i →
        f.summaryOutput env ofEffect i deliveries = outputIn ofEffect (f.recordsOf env whole i) := by
    intro δ ofEffect ofAction g h i hi
    have hsettled := settled_of_summaries env [whole] (by simp [hwhole]) f i
    have hfragments := h.run deliveries f hstart hcompletes hi
    have hmessage := h.run [whole] f hstart hone hsettled
    simp only [Feeds.summaryOutput, hwhole, Option.isSome_some, if_true, List.append_nil] at hmessage
    have hentries : entriesIn (summariesOf deliveries) = entriesIn [value] := by
      rw [entriesIn_eq, hcut.entries]
      simp [entriesIn]
    have horders : ordersIn (summariesOf deliveries) = ordersIn [value] := by
      rw [ordersIn, ← List.map_flatMap, hcut.orders]
      simp [ordersIn]
    have hself : summariesOf [whole] = [value] := List.filterMap_cons_some hwhole
    rw [hfragments, hmessage, hentries, horders, hself]
  refine ⟨?_, fun hd i => settled_of_summaries env deliveries hd f i, ?_⟩
  · intro i hi
    exact ⟨hsame (readsSummary_trades env) i hi, hsame (readsSummary_tradeUpdates env) i hi⟩
  · rw [run_next]
    exact hcompletes.foldl_next hstart (Or.inl hcut.nonempty)

/-- Two fragments of one trade, with a message for another security in between. -/
theorem two_fragments_transparent :
    let f := summaryStart.feeds
    let limits := Delivery.incremental 320 2 ⟨1, 0⟩ (.limitsBanding50 [⟨8, 2⟩])
    let deliveries := [Delivery.incremental 310 1 ⟨1, 0⟩ (.tradeSummary48 firstFragment), limits,
      .incremental 310 1 ⟨2, 0⟩ (.tradeSummary48 secondFragment)]
    f.summaryOutput summarySetup.env Effect.trades 7 deliveries =
      [⟨.buy, some 5000, 5, 1, some 11, some 12⟩] := by
  intro f limits deliveries
  let value : TradeSummary := ⟨100, firstFragment.noMDEntries, [⟨11, 5⟩, ⟨12, 5⟩]⟩
  have hv : BalancedSummary value := ⟨by decide, by decide, by decide, by decide⟩
  have hcut : CutInto value (summariesOf deliveries) := by
    have hahead : ∀ received ∈ (summariesOf deliveries).inits,
        ((received.flatMap TradeSummary.noOrderIDEntries).length : Int) ≤
          ((received.flatMap TradeSummary.noMDEntries).map TradeSummary.Entry.numberOfOrders).sum := by
      decide +kernel
    exact ⟨by decide, by decide, by decide, by decide,
      fun received hr => hahead received ((List.mem_inits _ _).2 hr)⟩
  have h := summary_fragments_transparent summarySetup.env f value hv (Or.inr rfl)
    (.incremental 310 1 ⟨1, 0⟩ (.tradeSummary48 value)) rfl deliveries hcut
  rw [(h.1 7 (Or.inl (by decide +kernel))).1]
  decide +kernel

end RoqCme.MarketData
