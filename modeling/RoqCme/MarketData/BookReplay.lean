import RoqCme.Lib.Replay
import RoqCme.Lib.Unwinding
import RoqCme.MarketData.ForcedSnapshots
import RoqCme.MarketData.OrderEvents

/-! The order book of a security as a consumer builds it from the events of template 47. An event
is a snapshot while the security has no report number, and template 47 carries none. -/
namespace RoqCme.MarketData
open RoqCme.Lib RoqCme.Mdp RoqCme.Tools
variable {Qp Qo : Type}

/-- A submission to the MBO sequencer: `true` for a snapshot. -/
def Effect.mboSubmission : Effect → Option (Bool × List MBOUpdate)
  | .submitMbo orders _ (.snapshot _) => some (true, orders)
  | .submitMbo orders _ (.update _) => some (false, orders)
  | _ => none

def mboSubmissions (records : List Record) : List (Bool × List MBOUpdate) :=
  records.flatMap fun r => r.effects.filterMap Effect.mboSubmission

/-- The records that a delivery adds for one security. -/
def Feeds.recordsOf (env : Env Qp Qo) (f : Feeds Qp Qo) (d : Delivery) (securityId : Int) :
    List Record :=
  ((f.step env d).shared.view securityId).records.drop
    (f.shared.view securityId).records.length

/-- What the template 47 messages submit for the security. -/
def Feeds.submits47 (env : Env Qp Qo) (f : Feeds Qp Qo) (securityId : Int) :
    Delivery → List (Bool × List MBOUpdate)
  | .incremental channelId streamId frame (.orderBook47 value) =>
    mboSubmissions (f.recordsOf env (.incremental channelId streamId frame (.orderBook47 value))
      securityId)
  | _ => []

/-- The entries of a message for one security. -/
def entriesFor (securityId : Int) (value : OrderBook47) : List OrderBook47.Entry :=
  (visited47 value.noMDEntries).filter fun item => item.securityID = securityId

/-- The order actions of an entry. -/
def orderActions (securityId : Int) (security : Security Qp Qo) (item : OrderBook47.Entry) :
    List MBOUpdate :=
  (emplaceBack47 item security securityId).map Order47.mboUpdate

/-- Calls for different securities do not see each other. -/
theorem view_performAll_distinct (env : Env Qp Qo) (ctx : Context) (action : Int → Action)
    (ids : List Int) (hn : ids.Nodup) (shared : Shared Qp Qo) (securityId : Int) :
    (performAll env ctx (ids.map fun i => ⟨i, action i⟩) shared).view securityId =
      if securityId ∈ ids then
        (shared.view securityId).apply securityId (action securityId).site
          ((action securityId).op env ctx)
      else shared.view securityId := by
  induction ids generalizing shared with
  | nil => rfl
  | cons i ids ih =>
    obtain ⟨hi, hids⟩ := List.nodup_cons.1 hn
    have hstep := ih hids (Call.perform env ctx shared ⟨i, action i⟩)
    have hview := view_perform env ctx shared ⟨i, action i⟩ securityId
    simp only [performAll, List.map_cons, List.foldl_cons] at hstep ⊢
    rw [hstep, hview]
    by_cases he : securityId = i
    · subst he
      simp [hi]
    · simp [he, Ne.symm he]

theorem filterMap_echo {book : Book} {effects : List Effect} (h : ∀ e ∈ effects, Echo book e) :
    effects.filterMap Effect.mboSubmission = [] := by
  rw [List.filterMap_eq_nil_iff]
  intro e he
  cases h e he with
  | price | order | mark | clear => rfl

/-- One submission for each call, with the flag it was made with. -/
theorem dispatchMarketByOrder_submission (env : Env Qp Qo) (ctx : Context)
    (orders : List MBOUpdate) (isSnapshot : Bool) (s : Security Qp Qo) :
    (dispatchMarketByOrder env ctx orders isSnapshot s).2.filterMap Effect.mboSubmission =
      [(isSnapshot, orders)] := by
  obtain ⟨echoes, hecho, heq⟩ := dispatchMarketByOrder_eq env ctx orders isSnapshot s
  rw [heq, List.filterMap_cons, filterMap_echo hecho]
  cases isSnapshot with
  | true => rfl
  | false => rfl

/-- A template 47 message as one security sees it: nothing happens, or the event that it completes has
the security. -/
theorem view_orderBook47 (env : Env Qp Qo) (he : env.options.enableMarketByOrder = true)
    (f : Feeds Qp Qo) (channelId streamId : Nat) (frame : Frame) (value : OrderBook47)
    (ht : (f.caches channelId).Tidy) (securityId : Int) :
    let event := (f.caches channelId).extend47 f.shared.securityDefinitions.getSecurity value
    (f.step env (.incremental channelId streamId frame (.orderBook47 value))).shared.view
        securityId =
      if value.matchEventIndicator ≠ 0 ∧ securityId ∈ event.securityIds47 ∧
          (f.shared.securityDefinitions.getSecurity securityId).isSome then
        (f.shared.view securityId).apply securityId .dispatchMarketByOrder
          (Action.op env ⟨streamId, frame, value.transactTime⟩
            (.dispatchOrderBook47 (ordersFor securityId event.orders47)))
      else f.shared.view securityId := by
  intro event
  have hids : (event.securityIds47.filter fun i =>
      (f.shared.securityDefinitions.getSecurity i).isSome).Nodup :=
    (extend47_nodup _ ht.nodup value).filter _
  simp only [Feeds.step, Incremental.onMessage, react, definitionsAfter,
    orderBook47_eq he _ ht.orders]
  by_cases h0 : value.matchEventIndicator = 0
  · simp [h0, performAll, Shared.view]
  · simp only [h0, if_false, ne_eq, not_false_eq_true, true_and]
    rw [view_performAll_distinct env _ _ _ hids]
    simp only [List.mem_filter]
    rfl

/-- What a template 47 message submits for a known security: nothing, or one update with the
orders of the event that it completes. -/
theorem submits47_eq (env : Env Qp Qo) (he : env.options.enableMarketByOrder = true)
    (f : Feeds Qp Qo) (channelId streamId : Nat) (frame : Frame) (value : OrderBook47)
    (ht : (f.caches channelId).Tidy) (securityId : Int) (s : Security Qp Qo)
    (hs : f.shared.securityDefinitions.getSecurity securityId = some s) :
    let event := (f.caches channelId).extend47 f.shared.securityDefinitions.getSecurity value
    f.submits47 env securityId (.incremental channelId streamId frame (.orderBook47 value)) =
      if value.matchEventIndicator ≠ 0 ∧ securityId ∈ event.securityIds47 then
        [(decide (s.rptSeq = 0), ordersFor securityId event.orders47)]
      else [] := by
  intro event
  obtain ⟨hsec, -⟩ := getSecurity_eq_some.1 hs
  have hview := view_orderBook47 env he f channelId streamId frame value ht securityId
  simp only [hs, Option.isSome_some, and_true] at hview
  simp only [Feeds.submits47, Feeds.recordsOf, hview]
  split
  · simp only [View.apply, Shared.view, hsec, List.drop_left, mboSubmissions,
      List.flatMap_singleton, Action.op]
    exact dispatchMarketByOrder_submission env _ _ _ s
  · simp [Shared.view, mboSubmissions]

/-- Only known securities get an update. -/
theorem submits47_of_unknown (env : Env Qp Qo) (he : env.options.enableMarketByOrder = true)
    (f : Feeds Qp Qo) (channelId streamId : Nat) (frame : Frame) (value : OrderBook47)
    (ht : (f.caches channelId).Tidy) (securityId : Int)
    (hs : f.shared.securityDefinitions.getSecurity securityId = none) :
    f.submits47 env securityId (.incremental channelId streamId frame (.orderBook47 value)) =
      [] := by
  have hview := view_orderBook47 env he f channelId streamId frame value ht securityId
  simp only [hs, Option.isSome_none, Bool.false_eq_true, and_false, if_false] at hview
  simp [Feeds.submits47, Feeds.recordsOf, hview, mboSubmissions]

theorem orderActions_same {s t : Security Qp Qo} (h : SameInstrument s t) (securityId : Int) :
    orderActions securityId t = orderActions securityId s := by
  funext item
  simp only [orderActions, emplaceBack47, h.displayFactor]

/-- The orders of one security are those of its own entries. -/
theorem ordersFor_entries {get : Lookup Qp Qo} {securityId : Int} {s : Security Qp Qo}
    (hs : get securityId = some s) (items : List OrderBook47.Entry) :
    ordersFor securityId (items.flatMap (orders47Of get)) =
      (items.filter fun item => item.securityID = securityId).flatMap
        (orderActions securityId s) := by
  induction items with
  | nil => rfl
  | cons item items ih =>
    have happ : ∀ xs ys, ordersFor securityId (xs ++ ys) =
        ordersFor securityId xs ++ ordersFor securityId ys := by
      intro xs ys
      simp [ordersFor]
    rw [List.flatMap_cons, happ, ih]
    by_cases he : item.securityID = securityId
    · have hown : ∀ o ∈ orders47Of get item, o.securityId = securityId := by
        intro o ho
        rw [(mem_orders47Of ho).1, he]
      have hall : (orders47Of get item).filter (fun o => o.securityId = securityId) =
          orders47Of get item := by
        rw [List.filter_eq_self]
        intro o ho
        simpa using hown o ho
      rw [List.filter_cons_of_pos (by simpa using he), List.flatMap_cons, ordersFor, hall]
      simp only [orders47Of, orderActions, he, hs]
    · have hnone : (orders47Of get item).filter (fun o => o.securityId = securityId) = [] := by
        rw [List.filter_eq_nil_iff]
        intro o ho
        rw [(mem_orders47Of ho).1]
        simpa using he
      rw [List.filter_cons_of_neg (by simpa using he), ordersFor, hnone]
      rfl

/-- A known security is in the event if it was, or if the message has an entry of it. -/
theorem mem_extend47 {get : Lookup Qp Qo} {securityId : Int} {s : Security Qp Qo}
    (hs : get securityId = some s) (cache : Cache) (value : OrderBook47) :
    securityId ∈ (cache.extend47 get value).securityIds47 ↔
      securityId ∈ cache.securityIds47 ∨ entriesFor securityId value ≠ [] := by
  have hids := (OrderBook47Loop.run_spec get value.noMDEntries cache.orders47
    cache.securityIds47).2.1 securityId
  have hfilter : entriesFor securityId value ≠ [] ↔
      ∃ item ∈ visited47 value.noMDEntries, item.securityID = securityId := by
    simp [entriesFor, List.filter_eq_nil_iff]
  rw [Cache.extend47, hids, hs, hfilter]
  simp

/-- The event of a channel after one more message, as far as one security is concerned. -/
theorem extend47_entries {get : Lookup Qp Qo} {securityId : Int} {s : Security Qp Qo}
    (hs : get securityId = some s) {cache : Cache} {entries : List OrderBook47.Entry}
    (horders : ordersFor securityId cache.orders47 =
      entries.flatMap (orderActions securityId s))
    (hlisted : securityId ∈ cache.securityIds47 ↔ entries ≠ []) (value : OrderBook47) :
    ordersFor securityId (cache.extend47 get value).orders47 =
        (entries ++ entriesFor securityId value).flatMap (orderActions securityId s) ∧
      (securityId ∈ (cache.extend47 get value).securityIds47 ↔
        entries ++ entriesFor securityId value ≠ []) := by
  obtain ⟨h1, -, -⟩ := OrderBook47Loop.run_spec get value.noMDEntries cache.orders47
    cache.securityIds47
  constructor
  · rw [Cache.extend47, h1, List.flatMap_append, ← horders, entriesFor, ← ordersFor_entries hs]
    simp [ordersFor]
  · rw [mem_extend47 hs, hlisted]
    simp only [ne_eq, List.append_eq_nil_iff]
    tauto

/-- What the event of a channel has of one security. -/
structure Cache.Holds47 (cache : Cache) (securityId : Int) (security : Security Qp Qo)
    (entries : List OrderBook47.Entry) : Prop where
  orders : ordersFor securityId cache.orders47 = entries.flatMap (orderActions securityId security)
  listed : securityId ∈ cache.securityIds47 ↔ entries ≠ []

theorem Cache.holds47_empty (securityId : Int) (security : Security Qp Qo) :
    Cache.Holds47 {} securityId security [] :=
  ⟨rfl, by simp⟩

/-- The entries of a security in the event of a channel, with one more delivery. -/
def entriesOn (securityId : Int) (channelId : Nat) (entries : List OrderBook47.Entry) :
    Delivery → List OrderBook47.Entry
  | .incremental c _ _ (.orderBook47 value) =>
    if c = channelId then
      if value.matchEventIndicator = 0 then entries ++ entriesFor securityId value else []
    else entries
  | .sequenceReset c => if c = channelId then [] else entries
  | _ => entries

/-- The cache of a channel and the entries sent there go together through every delivery. -/
theorem Cache.Holds47.step {env : Env Qp Qo} (he : env.options.enableMarketByOrder = true)
    {f : Feeds Qp Qo} {channelId : Nat} {securityId : Int} {security s : Security Qp Qo}
    {entries : List OrderBook47.Entry} (ht : (f.caches channelId).Tidy)
    (hs : f.shared.securityDefinitions.getSecurity securityId = some s)
    (hsame : SameInstrument security s)
    (h : (f.caches channelId).Holds47 securityId security entries) (d : Delivery) :
    ((f.step env d).caches channelId).Holds47 securityId security
      (entriesOn securityId channelId entries d) := by
  have hactions := orderActions_same hsame securityId
  cases d with
  | incremental c streamId frame message =>
    by_cases hc : c = channelId
    · subst hc
      by_cases h47 : ∃ value, message = .orderBook47 value
      · obtain ⟨value, rfl⟩ := h47
        obtain ⟨horders, hlisted⟩ := extend47_entries hs (by rw [h.orders, hactions]) h.listed value
        rw [hactions] at horders
        simp only [Feeds.step, Incremental.onMessage, react, Function.update_self,
          orderBook47_eq he _ ht.orders, entriesOn, if_true]
        split
        · exact ⟨horders, hlisted⟩
        · exact Cache.holds47_empty securityId security
      · have hno : ∀ value, message ≠ .orderBook47 value := fun value hv => h47 ⟨value, hv⟩
        obtain ⟨h1, h2⟩ := react_cache47 env.options f.shared.securityDefinitions
          (f.caches c) f.shared.pending hno
        have hentries : entriesOn securityId c entries (.incremental c streamId frame message) =
            entries := by
          cases message with
          | orderBook47 value => exact absurd rfl (hno value)
          | _ => rfl
        rw [hentries]
        simp only [Feeds.step, Incremental.onMessage, Function.update_self]
        exact ⟨by rw [h1]; exact h.orders, by rw [h2]; exact h.listed⟩
    · have hentries : entriesOn securityId channelId entries
          (.incremental c streamId frame message) = entries := by
        cases message with
        | orderBook47 value => exact if_neg hc
        | _ => rfl
      rw [hentries]
      simp only [Feeds.step, Function.update_of_ne (Ne.symm hc)]
      exact h
  | sequenceReset c =>
    by_cases hc : c = channelId
    · subst hc
      simp only [Feeds.step, entriesOn, Function.update_self, if_true]
      exact Cache.holds47_empty securityId security
    · simp only [Feeds.step, entriesOn, Function.update_of_ne (Ne.symm hc), if_neg hc]
      exact h
  | _ => exact h

/-- A run seen from one security: the entries of its open events on each channel, the actions of
the completed ones, and what was submitted for them. -/
structure Watch (Qp Qo : Type) where
  feeds : Feeds Qp Qo
  entries : Nat → List OrderBook47.Entry := fun _ => []
  actions : List MBOUpdate := []
  submitted : List (Bool × List MBOUpdate) := []

namespace Watch
variable (securityId : Int)

/-- The entries of the security in the event that a delivery completes. -/
def event (w : Watch Qp Qo) : Delivery → List OrderBook47.Entry
  | .incremental channelId _ _ (.orderBook47 value) =>
    if value.matchEventIndicator = 0 then [] else w.entries channelId ++ entriesFor securityId value
  | _ => []

def entriesAfter (w : Watch Qp Qo) : Delivery → Nat → List OrderBook47.Entry
  | .incremental channelId _ _ (.orderBook47 value) =>
    Function.update w.entries channelId
      (if value.matchEventIndicator = 0 then w.entries channelId ++ entriesFor securityId value
      else [])
  | .sequenceReset channelId => Function.update w.entries channelId []
  | _ => w.entries

def step (env : Env Qp Qo) (security : Security Qp Qo) (w : Watch Qp Qo) (d : Delivery) :
    Watch Qp Qo :=
  { feeds := w.feeds.step env d
    entries := w.entriesAfter securityId d
    actions := w.actions ++ (w.event securityId d).flatMap (orderActions securityId security)
    submitted := w.submitted ++ w.feeds.submits47 env securityId d }

/-- The event does not find a book that it would replace. -/
def Extends (w : Watch Qp Qo) (d : Delivery) : Prop :=
  w.event securityId d ≠ [] → w.actions ≠ [] →
    ∀ s ∈ w.feeds.shared.securityDefinitions.getSecurity securityId, s.rptSeq ≠ 0

instance (w : Watch Qp Qo) (d : Delivery) : Decidable (w.Extends securityId d) :=
  inferInstanceAs (Decidable (w.event securityId d ≠ [] → w.actions ≠ [] →
    ∀ s ∈ w.feeds.shared.securityDefinitions.getSecurity securityId, s.rptSeq ≠ 0))

/-- The cached events are those of the messages. -/
structure Faithful (security : Security Qp Qo) (w : Watch Qp Qo) : Prop where
  tidy : ∀ channelId, (w.feeds.caches channelId).Tidy
  known : ∃ s, w.feeds.shared.securityDefinitions.getSecurity securityId = some s ∧
    SameInstrument security s
  orders : ∀ channelId, ordersFor securityId (w.feeds.caches channelId).orders47 =
    (w.entries channelId).flatMap (orderActions securityId security)
  listed : ∀ channelId, securityId ∈ (w.feeds.caches channelId).securityIds47 ↔
    w.entries channelId ≠ []
  actions : w.submitted.flatMap Prod.snd = w.actions

/-- One submission for each completed event, with its actions. -/
theorem Faithful.submits {security : Security Qp Qo} {w : Watch Qp Qo}
    (h : w.Faithful securityId security) (env : Env Qp Qo)
    (he : env.options.enableMarketByOrder = true) {s : Security Qp Qo}
    (hs : w.feeds.shared.securityDefinitions.getSecurity securityId = some s) (d : Delivery) :
    w.feeds.submits47 env securityId d =
      if w.event securityId d = [] then []
      else [(decide (s.rptSeq = 0),
        (w.event securityId d).flatMap (orderActions securityId security))] := by
  obtain ⟨t, ht, hsame⟩ := h.known
  rw [hs] at ht
  cases ht
  have hactions := orderActions_same hsame securityId
  by_cases h47 : ∃ c streamId frame value, d = .incremental c streamId frame (.orderBook47 value)
  · obtain ⟨c, streamId, frame, value, rfl⟩ := h47
    obtain ⟨hext, hlisted⟩ := extend47_entries hs
      (by rw [h.orders c, hactions]) (h.listed c) value
    rw [submits47_eq env he w.feeds c streamId frame value (h.tidy c) securityId s hs, hext,
      hactions]
    by_cases h0 : value.matchEventIndicator = 0
    · simp [event, h0]
    · by_cases hnil : w.entries c ++ entriesFor securityId value = []
      · have hnot := mt hlisted.1 (not_not_intro hnil)
        simp only [event, h0, hnil, hnot, and_false, if_true, if_false]
      · have hin := hlisted.2 hnil
        simp only [event, h0, hnil, hin, ne_eq, not_false_eq_true, and_self, if_true, if_false]
  · have hsub : w.feeds.submits47 env securityId d = [] := by
      unfold Feeds.submits47
      split
      · exact absurd ⟨_, _, _, _, rfl⟩ h47
      · rfl
    have hevent : w.event securityId d = [] := by
      unfold event
      split
      · exact absurd ⟨_, _, _, _, rfl⟩ h47
      · rfl
    rw [hsub, hevent, if_pos rfl]

theorem entriesAfter_eq (w : Watch Qp Qo) (d : Delivery) (channelId : Nat) :
    w.entriesAfter securityId d channelId =
      entriesOn securityId channelId (w.entries channelId) d := by
  cases d with
  | incremental c streamId frame message =>
    cases message with
    | orderBook47 value =>
      by_cases hc : c = channelId
      · subst hc
        simp only [entriesAfter, entriesOn, Function.update_self, if_true]
      · simp only [entriesAfter, entriesOn, Function.update_of_ne (Ne.symm hc), if_neg hc]
    | _ => rfl
  | sequenceReset c =>
    by_cases hc : c = channelId
    · subst hc
      simp only [entriesAfter, entriesOn, Function.update_self, if_true]
    · simp only [entriesAfter, entriesOn, Function.update_of_ne (Ne.symm hc), if_neg hc]
  | _ => rfl

theorem Faithful.caches {security : Security Qp Qo} {w : Watch Qp Qo}
    (h : w.Faithful securityId security) (env : Env Qp Qo)
    (he : env.options.enableMarketByOrder = true) (d : Delivery) (channelId : Nat) :
    ((w.feeds.step env d).caches channelId).Holds47 securityId security
      (w.entriesAfter securityId d channelId) := by
  obtain ⟨s, hs, hsame⟩ := h.known
  rw [entriesAfter_eq]
  exact Cache.Holds47.step he (h.tidy channelId) hs hsame
    ⟨h.orders channelId, h.listed channelId⟩ d

theorem Faithful.step {security : Security Qp Qo} {w : Watch Qp Qo}
    (h : w.Faithful securityId security) (env : Env Qp Qo)
    (he : env.options.enableMarketByOrder = true) (d : Delivery) :
    (w.step securityId env security d).Faithful securityId security where
  tidy := step_tidy env w.feeds d h.tidy
  known := by
    obtain ⟨s, hs, hsame⟩ := h.known
    obtain ⟨s', hs', hi, -⟩ := (step_grown env w.feeds d).getSecurity hs
    exact ⟨s', hs', hsame.trans hi⟩
  orders channelId := (h.caches securityId env he d channelId).orders
  listed channelId := (h.caches securityId env he d channelId).listed
  actions := by
    obtain ⟨s, hs, -⟩ := h.known
    simp only [Watch.step, h.submits securityId env he hs d, List.flatMap_append, h.actions]
    by_cases hnil : w.event securityId d = []
    · simp [hnil]
    · simp [hnil]

/-- One more delivery keeps all actions in effect exactly when they were and the delivery does
not replace them. -/
theorem Faithful.keeps_iff {security : Security Qp Qo} {w : Watch Qp Qo}
    (h : w.Faithful securityId security) (env : Env Qp Qo)
    (he : env.options.enableMarketByOrder = true) (d : Delivery) :
    ((Consumer.free MBOUpdate).replay (w.step securityId env security d).submitted =
        (w.step securityId env security d).actions) ↔
      (Consumer.free MBOUpdate).replay w.submitted = w.actions ∧ w.Extends securityId d := by
  obtain ⟨s, hs, -⟩ := h.known
  have hsub := h.submits securityId env he hs d
  rw [← (h.step securityId env he d).actions]
  simp only [Watch.step, hsub]
  by_cases hnil : w.event securityId d = []
  · simp [hnil, h.actions, Extends]
  · rw [if_neg hnil, Consumer.free_replay_keeps_iff, h.actions]
    apply and_congr_right
    intro _
    simp only [Extends, decide_eq_true_eq]
    constructor
    · intro hreplace _ hne t ht h0
      rw [hs] at ht
      cases ht
      exact hne (hreplace h0)
    · intro hext h0
      by_contra hne
      exact hext hnil hne s hs h0

end Watch

/-- A consumer of the events of template 47 ends with all their actions applied in order, exactly
when no event replaces a book: the security has a report number at every event after the first
with an action. -/
theorem events_extend_the_book_iff (env : Env Qp Qo)
    (he : env.options.enableMarketByOrder = true) (items : List SecDef)
    (before deliveries : List Delivery) (securityId : Int) (security : Security Qp Qo)
    (hs : (Feeds.run env before (Feeds.ofSecDefs env items)).shared.securityDefinitions.getSecurity
      securityId = some security)
    (hnone : ∀ channelId, securityId ∉
      ((Feeds.run env before (Feeds.ofSecDefs env items)).caches channelId).securityIds47) :
    let start : Watch Qp Qo := { feeds := Feeds.run env before (Feeds.ofSecDefs env items) }
    let w := deliveries.foldl (Watch.step securityId env security) start
    (∀ (B : Type) (C : Consumer MBOUpdate B),
        C.replay w.submitted = w.actions.foldl C.apply C.empty) ↔
      Along (Watch.step securityId env security) (Watch.Extends securityId) deliveries start := by
  intro start w
  have htidy : ∀ channelId, (start.feeds.caches channelId).Tidy :=
    run_tidy env before _ fun _ => Cache.tidy_empty
  have hstart : start.Faithful securityId security := by
    refine ⟨htidy, ⟨security, hs, .refl security⟩, ?_, ?_, rfl⟩
    · intro channelId
      have hnil : (start.feeds.caches channelId).orders47.filter
          (fun o => o.securityId = securityId) = [] := by
        rw [List.filter_eq_nil_iff]
        intro o ho hid
        rw [decide_eq_true_eq] at hid
        exact hnone channelId (hid ▸ (htidy channelId).listed o ho)
      rw [ordersFor, hnil]
      rfl
    · intro channelId
      exact ⟨fun hin => absurd hin (hnone channelId), fun hne => absurd rfl hne⟩
  have hw : w.Faithful securityId security := by
    refine List.foldlRecOn deliveries _ hstart ?_
    intro v hv d _
    exact hv.step securityId env he d
  rw [← hw.actions, Consumer.replay_all_iff, hw.actions]
  constructor
  · intro h
    exact (Along.of_run (fun v => v.Faithful securityId security)
      (fun v => (Consumer.free MBOUpdate).replay v.submitted = v.actions)
      (fun v d hv => hv.step securityId env he d)
      (fun v d hv hd => (hv.keeps_iff securityId env he d).1 hd) hstart h).2
  · intro h
    have hrun := Along.run_inv (fun v : Watch Qp Qo => v.Faithful securityId security ∧
        (Consumer.free MBOUpdate).replay v.submitted = v.actions)
      (fun v d hv hd => ⟨hv.1.step securityId env he d,
        (hv.1.keeps_iff securityId env he d).2 ⟨hv.2, hd⟩⟩) ⟨hstart, rfl⟩ h
    exact hrun.2

/-- The orders of a book, each under its id. -/
def orderSet : Consumer MBOUpdate (List MBOUpdate) :=
  { empty := []
    apply := fun book u =>
      let others := book.filter fun o => o.orderId ≠ u.orderId
      match u.action with
      | .new | .change => others ++ [u]
      | .delete => others
      | _ => book }

/-- An event of security 7 with one new order to buy. -/
def newOrder47 (orderId : Nat) : Message :=
  .orderBook47 ⟨100, 1, [⟨some orderId, some 1, some 5000000000000, some 5, 7, .new, .bid⟩]⟩

def newOrder (sequenceNumber orderId : Nat) : Delivery :=
  .incremental 310 1 ⟨sequenceNumber, 0⟩ (newOrder47 orderId)

/-- With report 1 seen before them, two events leave both orders in the book. -/
theorem events_extend_the_book_after_report :
    let env := Env.direct { enableMarketByOrder := true }
    let items := [SecDef.sample 7 "ESZ5"]
    let before := [Delivery.incremental 310 1 ⟨1, 0⟩ (.limitsBanding50 [⟨7, 1⟩])]
    let security := { newSecurity none none "CME" "ESZ5" (some 1) false with rptSeq := 1 }
    let start : Watch _ _ := { feeds := Feeds.run env before (Feeds.ofSecDefs env items) }
    let w := [newOrder 2 11, newOrder 3 12].foldl (Watch.step 7 env security) start
    orderSet.replay w.submitted = w.actions.foldl orderSet.apply orderSet.empty ∧
      (orderSet.replay w.submitted).map MBOUpdate.orderId = [some 11, some 12] := by
  intro env items before security start w
  have hnone : ∀ channelId, (7 : Int) ∉ (start.feeds.caches channelId).securityIds47 := by
    intro channelId
    simp only [start, before, Feeds.run, List.foldl_cons, List.foldl_nil, Feeds.step]
    by_cases hc : channelId = 310
    · subst hc
      rw [Function.update_self]
      exact List.not_mem_nil
    · rw [Function.update_of_ne hc]
      exact List.not_mem_nil
  have hall := (events_extend_the_book_iff env rfl items before [newOrder 2 11, newOrder 3 12] 7
    security (by decide +kernel) hnone).2 (by decide +kernel)
  exact ⟨hall _ orderSet, by decide +kernel⟩

/-- Before any report the second event is a snapshot like the first: of the two orders one is
left, where applying both actions gives two. -/
theorem second_event_erases_first :
    let env := Env.direct { enableMarketByOrder := true }
    let security := newSecurity none none "CME" "ESZ5" (some 1) false
    let start : Watch _ _ := { feeds := Feeds.ofSecDefs env [SecDef.sample 7 "ESZ5"] }
    let w := [newOrder 2 11, newOrder 3 12].foldl (Watch.step 7 env security) start
    start.feeds.shared.securityDefinitions.getSecurity 7 = some security ∧
      (orderSet.replay w.submitted).map MBOUpdate.orderId = [some 12] ∧
      (w.actions.foldl orderSet.apply orderSet.empty).map MBOUpdate.orderId =
        [some 11, some 12] ∧
      orderSet.replay w.submitted ≠ w.actions.foldl orderSet.apply orderSet.empty := by
  decide +kernel

end RoqCme.MarketData
