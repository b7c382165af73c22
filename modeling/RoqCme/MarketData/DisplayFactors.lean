import RoqCme.Lib.History
import RoqCme.MarketData.ForcedSnapshots
import RoqCme.MarketData.InstrumentSources
import RoqCme.MarketData.RawPrices
import Mathlib.Algebra.Order.Field.Rat
import Mathlib.Data.Int.CharZero

/-! One price scale for each instrument: every price that is handed to a sequencer or published is
a raw price times the display factor, in every run of all feeds. The tick size is on this scale for
futures and options; the other instrument definitions publish the increment as it came. -/
namespace RoqCme.MarketData
open RoqCme.Lib RoqCme.Mdp RoqCme.Tools
variable {Qp Qo Q U : Type}

def publishedPrices : Published → List Double
  | .topOfBook _ layer _ => Layer.prices layer
  | .marketByPrice _ bids asks _ => levelPrices (bids, asks)
  | .marketByOrder _ orders _ => orderPrices orders
  | .tradeSummary _ trades => trades.map Trade.price
  | .statistics _ items _ => statisticsPrices items
  | .referenceData _ | .marketStatus _ _ => []

/-- The prices that leave a handler, to a sequencer or to the dispatcher. -/
def Effect.prices : Effect → List Double
  | .submitMbp levels _ _ => levelPrices levels
  | .submitMbo orders _ _ => orderPrices orders
  | .publish value => publishedPrices value
  | .updateRptSeq _ _ | .clear _ | .resubscribe _ _ => []

def snapshotContents : SnapshotCall U → List U
  | .publishSnapshot content _ _ => [content]
  | .requestSnapshot _ => []

def updateContents : UpdateCall U → List U
  | .publishUpdate content => [content]
  | .snapshot call => snapshotContents call

/-- A sequencer makes no prices: those that it holds back and those that it publishes are prices of
the contents that were submitted. -/
structure PassesPrices (S : Sequencer Q U) (prices : U → List Double) (held : Q → List Double) :
    Prop where
  init : held S.init = []
  clear : ∀ q, ∀ x ∈ held (S.clear q), x ∈ held q
  snapshot : ∀ q content n force apply,
    (∀ x ∈ held (S.snapshot q content n force apply).state, x ∈ prices content ∨ x ∈ held q) ∧
      ∀ call ∈ (S.snapshot q content n force apply).calls, ∀ u ∈ snapshotContents call,
        ∀ x ∈ prices u, x ∈ prices content ∨ x ∈ held q
  update : ∀ q content n m last,
    (∀ x ∈ held (S.update q content n m last).state, x ∈ prices content ∨ x ∈ held q) ∧
      ∀ call ∈ (S.update q content n m last).calls, ∀ u ∈ updateContents call,
        ∀ x ∈ prices u, x ∈ prices content ∨ x ∈ held q

/-- The sequencer without a queue holds nothing back. -/
theorem passesPrices_direct (prices : U → List Double) :
    PassesPrices (Sequencer.direct U) prices fun _ => [] := by
  refine ⟨rfl, ?_, ?_, ?_⟩
  · intro q x hx
    cases hx
  · intro q content n force apply
    refine ⟨fun x hx => (List.not_mem_nil hx).elim, ?_⟩
    intro call hc u hu x hx
    cases force with
    | true =>
      rw [List.mem_singleton.1 hc] at hu
      rw [List.mem_singleton.1 hu] at hx
      exact Or.inl hx
    | false =>
      rw [List.mem_singleton.1 hc] at hu
      cases hu
  · intro q content n m last
    refine ⟨fun x hx => (List.not_mem_nil hx).elim, ?_⟩
    intro call hc u hu x hx
    cases q with
    | some k =>
      rw [List.mem_singleton.1 hc] at hu
      rw [List.mem_singleton.1 hu] at hx
      exact Or.inl hx
    | none =>
      rw [List.mem_singleton.1 hc] at hu
      cases hu

section Submission
variable {S : Sequencer Q U} {prices : U → List Double} {held : Q → List Double}
variable {P : Double → Prop} {c : Callbacks U}

theorem Callbacks.onSnapshotCall_prices
    (hs : ∀ u n, publishedPrices (c.publishSnapshot u n) = prices u)
    {call : SnapshotCall U} (h : ∀ u ∈ snapshotContents call, ∀ x ∈ prices u, P x) :
    ∀ e ∈ (c.onSnapshotCall call).2, ∀ x ∈ e.prices, P x := by
  intro e he x hx
  cases call with
  | publishSnapshot content n m =>
    simp only [onSnapshotCall, List.mem_cons, List.not_mem_nil, or_false] at he
    cases he with
    | inl he =>
      rw [he, Effect.prices, hs] at hx
      exact h content List.mem_cons_self x hx
    | inr he =>
      rw [he] at hx
      cases hx
  | requestSnapshot retries =>
    rw [List.mem_singleton.1 he] at hx
    cases hx

theorem Callbacks.onSnapshotCalls_prices
    (hs : ∀ u n, publishedPrices (c.publishSnapshot u n) = prices u)
    {calls : List (SnapshotCall U)}
    (h : ∀ call ∈ calls, ∀ u ∈ snapshotContents call, ∀ x ∈ prices u, P x) (resubscribe : Nat) :
    ∀ e ∈ (c.onSnapshotCalls calls resubscribe).2, ∀ x ∈ e.prices, P x := by
  intro e he
  rw [onSnapshotCalls_effects] at he
  obtain ⟨call, hc, hm⟩ := List.mem_flatMap.1 he
  exact onSnapshotCall_prices hs (h call hc) e hm

theorem Callbacks.onUpdateCalls_prices
    (hs : ∀ u n, publishedPrices (c.publishSnapshot u n) = prices u) {publishUpdate : U → Published}
    (hu : ∀ u, publishedPrices (publishUpdate u) = prices u) {calls : List (UpdateCall U)}
    (h : ∀ call ∈ calls, ∀ u ∈ updateContents call, ∀ x ∈ prices u, P x) (resubscribe : Nat) :
    ∀ e ∈ (c.onUpdateCalls publishUpdate calls resubscribe).2, ∀ x ∈ e.prices, P x := by
  intro e he x hx
  rw [onUpdateCalls_effects] at he
  obtain ⟨call, hc, hm⟩ := List.mem_flatMap.1 he
  cases call with
  | publishUpdate content =>
    rw [List.mem_singleton.1 hm, Effect.prices, hu] at hx
    exact h _ hc content List.mem_cons_self x hx
  | snapshot call => exact onSnapshotCall_prices hs (h _ hc) e hm x hx

/-- A submission by the incremental feed. -/
theorem Callbacks.submit_prices (hS : PassesPrices S prices held)
    (hs : ∀ u n, publishedPrices (c.publishSnapshot u n) = prices u) {publishUpdate : U → Published}
    (hu : ∀ u, publishedPrices (publishUpdate u) = prices u) {q : Q} (hq : ∀ x ∈ held q, P x)
    {content : U} (hc : ∀ x ∈ prices content, P x) (resubscribe n : Nat) (isSnapshot : Bool) :
    let r := c.submit publishUpdate S q resubscribe content n isSnapshot
    (∀ x ∈ held r.1, P x) ∧ ∀ e ∈ r.2.2, ∀ x ∈ e.prices, P x := by
  intro r
  have hor : ∀ x, x ∈ prices content ∨ x ∈ held q → P x := fun x hx => hx.elim (hc x) (hq x)
  have hbad : ∀ effects : List Effect, (∀ e ∈ effects, ∀ x ∈ e.prices, P x) →
      ∀ e ∈ effects ++ [.clear c.book, .resubscribe c.book n], ∀ x ∈ e.prices, P x := by
    intro effects h e he x hx
    simp only [List.mem_append, List.mem_cons, List.not_mem_nil, or_false] at he
    obtain he | rfl | rfl := he
    · exact h e he x hx
    · cases hx
    · cases hx
  cases isSnapshot with
  | true =>
    obtain ⟨hstate, hcalls⟩ := hS.snapshot q content n true false
    have heffects := onSnapshotCalls_prices (P := P) hs
      (fun call hm u hu x hx => hor x (hcalls call hm u hu x hx)) resubscribe
    simp only [r, submit, if_true]
    split
    · exact ⟨fun x hx => hor x (hstate x (hS.clear _ x hx)), hbad _ heffects⟩
    · exact ⟨fun x hx => hor x (hstate x hx), heffects⟩
  | false =>
    obtain ⟨hstate, hcalls⟩ := hS.update q content n n (S.lastSequence q)
    have heffects := onUpdateCalls_prices (P := P) hs hu
      (fun call hm u hu x hx => hor x (hcalls call hm u hu x hx)) resubscribe
    simp only [r, submit, Bool.false_eq_true, if_false]
    split
    · exact ⟨fun x hx => hor x (hstate x (hS.clear _ x hx)), hbad _ heffects⟩
    · exact ⟨fun x hx => hor x (hstate x hx), heffects⟩

/-- A submission by a recovery feed. -/
theorem Callbacks.recover_prices (hS : PassesPrices S prices held)
    (hs : ∀ u n, publishedPrices (c.publishSnapshot u n) = prices u) {q : Q}
    (hq : ∀ x ∈ held q, P x) {content : U} (hc : ∀ x ∈ prices content, P x) (resubscribe n : Nat)
    (force : Bool) :
    let r := c.recover S q resubscribe content n force
    (∀ x ∈ held r.1, P x) ∧ ∀ e ∈ r.2.2, ∀ x ∈ e.prices, P x := by
  intro r
  have hor : ∀ x, x ∈ prices content ∨ x ∈ held q → P x := fun x hx => hx.elim (hc x) (hq x)
  obtain ⟨hstate, hcalls⟩ := hS.snapshot q content n force true
  have heffects := onSnapshotCalls_prices (P := P) hs
    (fun call hm u hu x hx => hor x (hcalls call hm u hu x hx)) resubscribe
  simp only [r, recover]
  split
  · refine ⟨fun x hx => hor x (hstate x (hS.clear _ x hx)), ?_⟩
    intro e he x hx
    cases List.mem_append.1 he with
    | inl he => exact heffects e he x hx
    | inr he =>
      rw [List.mem_singleton.1 he] at hx
      cases hx
  · exact ⟨fun x hx => hor x (hstate x hx), heffects⟩

end Submission

section Operations
variable {heldP : Qp → List Double} {heldO : Qo → List Double} {env : Env Qp Qo}
variable {P : Double → Prop}

/-- The prices kept for a security, in its sequencers and in the chunks of a snapshot. -/
def heldPrices (heldP : Qp → List Double) (heldO : Qo → List Double) (s : Security Qp Qo) :
    List Double :=
  heldP s.mbp.sequencer ++ heldO s.mbo.sequencer ++ orderPrices s.mbo.orders

/-- An operation leaves prices with `P` only, in the security and in its effects. -/
structure LeavesPrices (heldP : Qp → List Double) (heldO : Qo → List Double) (P : Double → Prop)
    (r : Security Qp Qo × List Effect) : Prop where
  held : ∀ x ∈ heldPrices heldP heldO r.1, P x
  effects : ∀ e ∈ r.2, ∀ x ∈ e.prices, P x

theorem forall_heldPrices {s : Security Qp Qo} : (∀ x ∈ heldPrices heldP heldO s, P x) ↔
    (∀ x ∈ heldP s.mbp.sequencer, P x) ∧ (∀ x ∈ heldO s.mbo.sequencer, P x) ∧
      ∀ x ∈ orderPrices s.mbo.orders, P x := by
  simp only [heldPrices, List.mem_append, or_imp, forall_and, and_assoc]

theorem leavesPrices_nil {s : Security Qp Qo} (h : ∀ x ∈ heldPrices heldP heldO s, P x) :
    LeavesPrices heldP heldO P (s, []) :=
  ⟨h, fun _ he => (List.not_mem_nil he).elim⟩

theorem dispatchMarketByPrice_leaves (hp : PassesPrices env.mbpSequencer levelPrices heldP)
    (ctx : Context) {bids asks : List MBPUpdate} (hc : ∀ x ∈ levelPrices (bids, asks), P x)
    (isSnapshot : Bool) {s : Security Qp Qo} (h : ∀ x ∈ heldPrices heldP heldO s, P x) :
    LeavesPrices heldP heldO P (dispatchMarketByPrice env ctx bids asks isSnapshot s) := by
  obtain ⟨hq, hq', hchunks⟩ := forall_heldPrices.1 h
  simp only [dispatchMarketByPrice]
  constructor
  · refine forall_heldPrices.2 ⟨?_, hq', hchunks⟩
    refine (Callbacks.submit_prices hp ?_ ?_ hq hc _ _ _).1
    · exact fun u n => rfl
    · exact fun u => rfl
  · refine List.forall_mem_cons.2 ⟨hc, ?_⟩
    refine (Callbacks.submit_prices hp ?_ ?_ hq hc _ _ _).2
    · exact fun u n => rfl
    · exact fun u => rfl

theorem dispatchMarketByOrder_leaves (ho : PassesPrices env.mboSequencer orderPrices heldO)
    (ctx : Context) {orders : List MBOUpdate} (hc : ∀ x ∈ orderPrices orders, P x)
    (isSnapshot : Bool) {s : Security Qp Qo} (h : ∀ x ∈ heldPrices heldP heldO s, P x) :
    LeavesPrices heldP heldO P (dispatchMarketByOrder env ctx orders isSnapshot s) := by
  obtain ⟨hq, hq', hchunks⟩ := forall_heldPrices.1 h
  simp only [dispatchMarketByOrder]
  constructor
  · refine forall_heldPrices.2 ⟨hq, ?_, hchunks⟩
    refine (Callbacks.submit_prices ho ?_ ?_ hq' hc _ _ _).1
    · exact fun u n => rfl
    · exact fun u => rfl
  · refine List.forall_mem_cons.2 ⟨hc, ?_⟩
    refine (Callbacks.submit_prices ho ?_ ?_ hq' hc _ _ _).2
    · exact fun u n => rfl
    · exact fun u => rfl

/-- A stale update has no content. -/
theorem checkReportSequence_leaves (hp : PassesPrices env.mbpSequencer levelPrices heldP)
    (ho : PassesPrices env.mboSequencer orderPrices heldO) (ctx : Context) (rptSeq : Nat)
    {s : Security Qp Qo} (h : ∀ x ∈ heldPrices heldP heldO s, P x) :
    LeavesPrices heldP heldO P (checkReportSequence env ctx rptSeq s) := by
  obtain ⟨hq, hq', hchunks⟩ := forall_heldPrices.1 h
  have hreport : ∀ resubscribe, ∀ e ∈ [Effect.updateRptSeq rptSeq resubscribe], ∀ x ∈ e.prices,
      P x := by
    intro resubscribe e he x hx
    rw [List.mem_singleton.1 he] at hx
    cases hx
  by_cases h0 : rptSeq = 0
  · simp only [checkReportSequence, Security.updateRptSeq, h0, if_true, Bool.false_eq_true, if_false]
    rw [h0] at hreport
    exact ⟨h, hreport false⟩
  · simp only [checkReportSequence, Security.updateRptSeq, h0, if_false]
    split
    · refine ⟨forall_heldPrices.2 ⟨fun x hx => hq x (hp.clear _ x hx),
        fun x hx => hq' x (ho.clear _ x hx), hchunks⟩, ?_⟩
      intro e he x hx
      simp only [List.mem_cons, List.not_mem_nil, or_false] at he
      obtain rfl | rfl | rfl | rfl | rfl | rfl | rfl := he
      all_goals cases hx
    · exact ⟨h, hreport false⟩

theorem publishOp_leaves {value : Security Qp Qo → Published} {s : Security Qp Qo}
    (h : ∀ x ∈ heldPrices heldP heldO s, P x) (hv : ∀ x ∈ publishedPrices (value s), P x) :
    LeavesPrices heldP heldO P (publishOp value s) := by
  refine ⟨h, ?_⟩
  intro e he
  rw [List.mem_singleton.1 he]
  exact hv

/-- An operation of the incremental feed adds no prices to those of its call. -/
theorem Action.op_leaves (hp : PassesPrices env.mbpSequencer levelPrices heldP)
    (ho : PassesPrices env.mboSequencer orderPrices heldO) (ctx : Context) {a : Action}
    (ha : ∀ x ∈ a.prices, P x) {s : Security Qp Qo} (h : ∀ x ∈ heldPrices heldP heldO s, P x) :
    LeavesPrices heldP heldO P (a.op env ctx s) := by
  cases a with
  | checkReportSequence rptSeq => exact checkReportSequence_leaves hp ho ctx rptSeq h
  | dispatchMarketByPrice bids asks isSnapshot =>
    exact dispatchMarketByPrice_leaves hp ctx ha isSnapshot h
  | dispatchMarketByOrder orders isSnapshot =>
    exact dispatchMarketByOrder_leaves ho ctx ha isSnapshot h
  | dispatchOrderBook47 orders => exact dispatchMarketByOrder_leaves ho ctx ha _ h
  | topOfBook _ | tradeSummary _ | statistics _ | marketStatus _ =>
    rw [Action.op]
    exact publishOp_leaves h ha
  | referenceData value =>
    refine ⟨h, List.forall_mem_cons.2 ⟨fun x hx => (List.not_mem_nil hx).elim, ?_⟩⟩
    intro e he x hx
    split at he
    · cases he
    · rw [List.mem_singleton.1 he] at hx
      cases hx

/-- The levels of a snapshot are those of its entries. -/
theorem MBPMarketRecovery.mem_levelPrices (items : List Snapshot52.Entry) (s : Security Qp Qo)
    {x : Double} (hx : x ∈ levelPrices (levels items s)) :
    ∃ item ∈ items, x = (priceNull9 item.mDEntryPx).mul s.displayFactor := by
  have h : ∀ x ∈ levelPrices (levels items s), ∃ item ∈ items,
      x = (priceNull9 item.mDEntryPx).mul s.displayFactor := by
    refine List.foldlRecOn (motive := fun acc : PriceLevels => ∀ x ∈ levelPrices acc,
      ∃ item ∈ items, x = (priceNull9 item.mDEntryPx).mul s.displayFactor) items _ ?_ ?_
    · intro x hx
      cases hx
    · intro acc hacc item hi x hx
      split at hx
      · simp only [levelPrices, List.map_append, List.mem_append, List.map_cons, List.map_nil,
          List.mem_singleton] at hx
        obtain (hx | hx) | hx := hx
        · exact hacc x (by simp [levelPrices, hx])
        · exact ⟨item, hi, hx⟩
        · exact hacc x (by simp [levelPrices, hx])
      · simp only [levelPrices, List.map_append, List.mem_append, List.map_cons, List.map_nil,
          List.mem_singleton] at hx
        obtain hx | hx | hx := hx
        · exact hacc x (by simp [levelPrices, hx])
        · exact hacc x (by simp [levelPrices, hx])
        · exact ⟨item, hi, hx⟩
      · exact hacc x hx
  exact h x hx

theorem MBPMarketRecovery.snapshotFullRefresh_leaves
    (hp : PassesPrices env.mbpSequencer levelPrices heldP) (ctx : Context) (sequence : Sequence)
    {value : Snapshot52} {s : Security Qp Qo}
    (hv : ∀ item ∈ value.noMDEntries, P ((priceNull9 item.mDEntryPx).mul s.displayFactor))
    (h : ∀ x ∈ heldPrices heldP heldO s, P x) :
    LeavesPrices heldP heldO P (snapshotFullRefresh env ctx sequence value s) := by
  obtain ⟨hq, hq', hchunks⟩ := forall_heldPrices.1 h
  have hlevels : ∀ x ∈ levelPrices (levels value.noMDEntries s), P x := by
    intro x hx
    obtain ⟨item, hi, rfl⟩ := mem_levelPrices value.noMDEntries s hx
    exact hv item hi
  simp only [snapshotFullRefresh]
  split
  · exact leavesPrices_nil h
  · split
    · exact leavesPrices_nil h
    · simp only [MBPMarketRecovery.dispatchMarketByPrice]
      split
      · exact leavesPrices_nil h
      · constructor
        · refine forall_heldPrices.2 ⟨?_, hq', hchunks⟩
          refine (Callbacks.recover_prices hp ?_ hq hlevels _ _ _).1
          exact fun u n => rfl
        · refine List.forall_mem_cons.2 ⟨hlevels, ?_⟩
          refine (Callbacks.recover_prices hp ?_ hq hlevels _ _ _).2
          exact fun u n => rfl

namespace MBOFDMarketRecovery

theorem onChunk_leaves (ho : PassesPrices env.mboSequencer orderPrices heldO) (streamId : Nat)
    (sequence : Sequence) {value : Snapshot53} (last : Bool) {s : Security Qp Qo}
    (hv : ∀ item ∈ value.noMDEntries, P ((price9 item.mDEntryPx).mul s.displayFactor))
    (h : ∀ x ∈ heldPrices heldP heldO s, P x) :
    LeavesPrices heldP heldO P (onChunk env streamId sequence value last s) := by
  obtain ⟨hq, hq', hchunks⟩ := forall_heldPrices.1 h
  have horders : ∀ x ∈ orderPrices (s.mbo.orders ++ value.noMDEntries.map fun item =>
      mboUpdate item s), P x := by
    intro x hx
    simp only [orderPrices, List.map_append, List.mem_append, List.map_map] at hx
    cases hx with
    | inl hx => exact hchunks x hx
    | inr hx =>
      obtain ⟨item, hi, rfl⟩ := List.mem_map.1 hx
      exact hv item hi
  cases last with
  | false => exact leavesPrices_nil (forall_heldPrices.2 ⟨hq, hq', horders⟩)
  | true =>
    simp only [onChunk, if_true]
    constructor
    · refine forall_heldPrices.2 ⟨hq, ?_, horders⟩
      refine (Callbacks.recover_prices ho ?_ hq' horders _ _ _).1
      exact fun u n => rfl
    · refine List.forall_mem_cons.2 ⟨horders, ?_⟩
      refine (Callbacks.recover_prices ho ?_ hq' horders _ _ _).2
      exact fun u n => rfl

theorem resetChunks_leaves {r : Security Qp Qo × List Effect} (h : LeavesPrices heldP heldO P r) :
    LeavesPrices heldP heldO P (r.1.resetChunks, r.2) := by
  obtain ⟨hq, hq', -⟩ := forall_heldPrices.1 h.held
  exact ⟨forall_heldPrices.2 ⟨hq, hq', fun _ hx => (List.not_mem_nil hx).elim⟩, h.effects⟩

theorem snapshotFullRefreshOrderBook53_leaves
    (ho : PassesPrices env.mboSequencer orderPrices heldO) (streamId : Nat) (sequence : Sequence)
    {value : Snapshot53} {s : Security Qp Qo}
    (hv : ∀ item ∈ value.noMDEntries, P ((price9 item.mDEntryPx).mul s.displayFactor))
    (h : ∀ x ∈ heldPrices heldP heldO s, P x) :
    LeavesPrices heldP heldO P
      (snapshotFullRefreshOrderBook53 env streamId sequence value s) := by
  have hchunk := fun last (mbo : Mbo Qo) (hm : ∀ x ∈ heldPrices heldP heldO { s with mbo := mbo },
    P x) => onChunk_leaves (s := { s with mbo := mbo }) ho streamId sequence last hv hm
  have hset := forall_heldPrices.1 h
  simp only [snapshotFullRefreshOrderBook53]
  split
  · exact leavesPrices_nil h
  · simp only [Security.updateMboSnapshot]
    split
    · split
      · exact leavesPrices_nil h
      · split
        · split
          · exact resetChunks_leaves (hchunk true s.mbo h)
          · exact hchunk false _ (forall_heldPrices.2 hset)
        · exact resetChunks_leaves (leavesPrices_nil h)
    · split
      · exact hchunk _ _ (forall_heldPrices.2 hset)
      · exact leavesPrices_nil h

end MBOFDMarketRecovery

end Operations

def Delivery.rawPrices : Delivery → List (Int × Double)
  | .incremental _ _ _ message | .instrumentDefinition _ _ message
  | .mbpRecovery _ _ _ message | .mbofdRecovery _ _ message => MarketData.rawPrices message
  | .sequenceReset _ => []

section Runs
variable {heldP : Qp → List Double} {heldO : Qo → List Double} {env : Env Qp Qo}
variable {raw : List (Int × Double)}

theorem Grown.scaled {sd sd' : SecurityDefinitions Qp Qo} (hg : Grown sd sd') {securityId : Int}
    {x : Double} (h : Lookup.Scaled sd.securities raw securityId x) :
    Lookup.Scaled sd'.securities raw securityId x := by
  refine h.mono ?_ fun _ hx => hx
  intro i s hs
  obtain ⟨s', hs', hi⟩ := hg i s hs
  exact ⟨s', hs', hi.displayFactor⟩

/-- Every price kept for a security or in the trace is a scaled raw price. -/
structure Shared.Scaled (heldP : Qp → List Double) (heldO : Qo → List Double)
    (raw : List (Int × Double)) (shared : Shared Qp Qo) : Prop where
  held : ∀ i s, shared.securityDefinitions.securities i = some s →
    ∀ x ∈ heldPrices heldP heldO s, Lookup.Scaled shared.securityDefinitions.securities raw i x
  trace : ∀ r ∈ shared.trace, ∀ e ∈ r.effects, ∀ x ∈ e.prices,
    Lookup.Scaled shared.securityDefinitions.securities raw r.securityId x

theorem Shared.Scaled.onSecurity {shared : Shared Qp Qo} (h : shared.Scaled heldP heldO raw)
    (securityId : Int) (site : Site) {op : SecurityOp Qp Qo}
    (hsame : ∀ s, SameInstrument s (op s).1)
    (hop : ∀ s, shared.securityDefinitions.securities securityId = some s →
      LeavesPrices heldP heldO
        (Lookup.Scaled shared.securityDefinitions.securities raw securityId) (op s)) :
    (shared.onSecurity securityId site op).Scaled heldP heldO raw := by
  have hg := (onSecurity_grown shared securityId site op hsame).1
  constructor
  · intro i s hs x hx
    apply hg.scaled
    rw [Shared.onSecurity] at hs
    split at hs
    · exact h.held i s hs x hx
    · next t ht =>
      by_cases hi : i = securityId
      · subst hi
        simp only [SecurityDefinitions.setSecurity, Function.update_self, Option.some.injEq] at hs
        subst hs
        exact (hop t ht).held x hx
      · simp only [SecurityDefinitions.setSecurity, Function.update_of_ne hi] at hs
        exact h.held i s hs x hx
  · intro r hr e he x hx
    apply hg.scaled
    cases mem_trace_onSecurity shared securityId site op r hr with
    | inl hr => exact h.trace r hr e he x hx
    | inr hr =>
      obtain ⟨s, hs, rfl⟩ := hr
      exact (hop s hs).effects e he x hx

theorem Shared.Scaled.performAll (hp : PassesPrices env.mbpSequencer levelPrices heldP)
    (ho : PassesPrices env.mboSequencer orderPrices heldO) (ctx : Context) {calls : List Call}
    {shared : Shared Qp Qo} (h : shared.Scaled heldP heldO raw)
    (hc : CallsScaled shared.securityDefinitions.securities raw calls) :
    (performAll env ctx calls shared).Scaled heldP heldO raw := by
  induction calls generalizing shared with
  | nil => exact h
  | cons call calls ih =>
    have hsame := fun s => (Action.op_same env ctx call.action s).1
    have hg := (onSecurity_grown shared call.securityId call.action.site
      (call.action.op env ctx) hsame).1
    have hcall : (call.perform env ctx shared).Scaled heldP heldO raw := by
      refine h.onSecurity call.securityId call.action.site hsame ?_
      intro s hs
      exact Action.op_leaves hp ho ctx (hc call List.mem_cons_self) (h.held _ s hs)
    refine ih hcall ?_
    intro c hm x hx
    exact hg.scaled (hc c (List.mem_cons_of_mem call hm) x hx)

/-- A new security keeps no prices. -/
theorem heldPrices_newSecurity (hp : PassesPrices env.mbpSequencer levelPrices heldP)
    (ho : PassesPrices env.mboSequencer orderPrices heldO) (exchange symbol : String)
    (factor : Double) (discard : Bool) :
    heldPrices heldP heldO (newSecurity env.mbpSequencer.init env.mboSequencer.init exchange symbol
      factor discard) = [] := by
  simp [heldPrices, newSecurity, hp.init, ho.init, orderPrices]

theorem Shared.Scaled.define (hp : PassesPrices env.mbpSequencer levelPrices heldP)
    (ho : PassesPrices env.mboSequencer orderPrices heldO) {shared : Shared Qp Qo}
    (h : shared.Scaled heldP heldO raw) {sd : SecurityDefinitions Qp Qo}
    (hsd : sd = shared.securityDefinitions ∨
      ∃ value, sd = shared.securityDefinitions.define env.discardSymbol env.mbpSequencer.init
        env.mboSequencer.init value) (pending : PendingSummary) (fault : Bool) :
    Shared.Scaled heldP heldO raw
      { shared with securityDefinitions := sd, pending := pending, fault := fault } := by
  obtain rfl | ⟨value, rfl⟩ := hsd
  · exact ⟨h.held, h.trace⟩
  · have hg := define_grown env.discardSymbol env.mbpSequencer.init env.mboSequencer.init
      shared.securityDefinitions value
    constructor
    · intro i s hs x hx
      apply hg.scaled
      obtain he | ⟨-, exchange, symbol, factor, discard, he⟩ := define_securities env.discardSymbol
        env.mbpSequencer.init env.mboSequencer.init shared.securityDefinitions value i
      · exact h.held i s (he.symm.trans hs) x hx
      · rw [he, Option.some.injEq] at hs
        rw [← hs, heldPrices_newSecurity hp ho] at hx
        cases hx
    · intro r hr e he x hx
      exact hg.scaled (h.trace r hr e he x hx)

/-- All prices kept between deliveries are raw prices or scaled raw prices. -/
structure Feeds.Scaled (heldP : Qp → List Double) (heldO : Qo → List Double)
    (raw : List (Int × Double)) (f : Feeds Qp Qo) : Prop where
  shared : f.shared.Scaled heldP heldO raw
  orders47 : ∀ c, Orders47Scaled f.shared.securityDefinitions.securities raw (f.caches c).orders47
  pending : f.shared.pending.Raw raw
  tidy : ∀ c, (f.caches c).Tidy

/-- A delivery that leaves the partial events alone. -/
theorem Feeds.Scaled.keep {f : Feeds Qp Qo} (h : f.Scaled heldP heldO raw) {shared : Shared Qp Qo}
    (hs : shared.Scaled heldP heldO raw)
    (hg : Grown f.shared.securityDefinitions shared.securityDefinitions)
    (hp : shared.pending = f.shared.pending) :
    Feeds.Scaled heldP heldO raw ⟨f.caches, shared⟩ := by
  refine ⟨hs, fun c o ho => hg.scaled (h.orders47 c o ho), ?_, h.tidy⟩
  rw [hp]
  exact h.pending

theorem Feeds.Scaled.onSecurity {f : Feeds Qp Qo} (h : f.Scaled heldP heldO raw) (securityId : Int)
    (site : Site) {op : SecurityOp Qp Qo} (hsame : ∀ s, SameInstrument s (op s).1)
    (hop : ∀ s, f.shared.securityDefinitions.securities securityId = some s →
      LeavesPrices heldP heldO
        (Lookup.Scaled f.shared.securityDefinitions.securities raw securityId) (op s)) :
    Feeds.Scaled heldP heldO raw ⟨f.caches, f.shared.onSecurity securityId site op⟩ :=
  h.keep (h.shared.onSecurity securityId site hsame hop)
    (onSecurity_grown f.shared securityId site op hsame).1
    (onSecurity_pending f.shared securityId site op)

theorem Feeds.Scaled.incremental (hp : PassesPrices env.mbpSequencer levelPrices heldP)
    (ho : PassesPrices env.mboSequencer orderPrices heldO) {f : Feeds Qp Qo}
    (h : f.Scaled heldP heldO raw) (channelId streamId : Nat) (frame : Frame) {message : Message}
    (hraw : ∀ x ∈ rawPrices message, x ∈ raw) :
    (f.step env (.incremental channelId streamId frame message)).Scaled heldP heldO raw := by
  obtain ⟨hcalls, h47, hpending⟩ := react_scaled env.options (h.tidy channelId).orders
    (h.orders47 channelId) h.pending message hraw
  have hg := step_grown env f (.incremental channelId streamId frame message)
  have hdefined : Grown f.shared.securityDefinitions
      (definitionsAfter env f.shared.securityDefinitions message) := fun i s hs =>
    ⟨s, definitionsAfter_known env message hs, .refl s⟩
  have hsd := definitionsAfter_cases env f.shared.securityDefinitions message
  refine ⟨?_, ?_, ?_, step_tidy env f _ h.tidy⟩
  · refine Shared.Scaled.performAll hp ho _ (h.shared.define hp ho hsd _ _) ?_
    exact fun c hc x hx => hdefined.scaled (hcalls c hc x hx)
  · intro c o hmem
    apply hg.scaled
    by_cases hc : c = channelId
    · subst hc
      simp only [Feeds.step, Function.update_self] at hmem
      exact h47 o hmem
    · simp only [Feeds.step, Function.update_of_ne hc] at hmem
      exact h.orders47 c o hmem
  · simp only [Feeds.step, Incremental.onMessage, performAll_pending]
    exact hpending

theorem Feeds.Scaled.instrumentDefinition (hp : PassesPrices env.mbpSequencer levelPrices heldP)
    (ho : PassesPrices env.mboSequencer orderPrices heldO) {f : Feeds Qp Qo}
    (h : f.Scaled heldP heldO raw) (streamId : Nat) (frame : Frame) (message : Message) :
    (f.step env (.instrumentDefinition streamId frame message)).Scaled heldP heldO raw := by
  simp only [Feeds.step, InstrumentDefinition.onMessage]
  split
  · next value =>
    split
    · exact h
    · refine h.keep ?_ ?_ (performAll_pending _ _ _ _)
      · refine Shared.Scaled.performAll hp ho _ (h.shared.define hp ho (Or.inr ⟨value, rfl⟩)
          f.shared.pending f.shared.fault) ?_
        refine callsScaled_of_prices ?_
        intro c hc
        rw [List.mem_singleton.1 hc]
        rfl
      · refine (define_grown env.discardSymbol env.mbpSequencer.init env.mboSequencer.init _
          value).trans ?_
        exact (performAll_grown env _ _ { f.shared with securityDefinitions := _ }).1
  · exact h

theorem Feeds.Scaled.mbpRecovery (hp : PassesPrices env.mbpSequencer levelPrices heldP)
    {f : Feeds Qp Qo} (h : f.Scaled heldP heldO raw) (streamId : Nat) (frame : Frame)
    (sequence : Sequence) {message : Message} (hraw : ∀ x ∈ rawPrices message, x ∈ raw) :
    (f.step env (.mbpRecovery streamId frame sequence message)).Scaled heldP heldO raw := by
  have hop : ∀ value : Snapshot52, (∀ item ∈ value.noMDEntries,
      (value.securityID, priceNull9 item.mDEntryPx) ∈ raw) →
      Feeds.Scaled heldP heldO raw ⟨f.caches, f.shared.onSecurity value.securityID
        .mbpMarketRecovery (MBPMarketRecovery.snapshotFullRefresh env ⟨streamId, frame, 0⟩
          sequence value)⟩ := by
    intro value hv
    refine h.onSecurity _ _
      (fun s => (MBPMarketRecovery.snapshotFullRefresh_same env _ sequence value s).1) ?_
    intro s hs
    refine MBPMarketRecovery.snapshotFullRefresh_leaves hp _ sequence ?_ (h.shared.held _ s hs)
    exact fun item hi => ⟨s, _, hs, hv item hi, rfl⟩
  simp only [Feeds.step, MBPMarketRecovery.onMessage]
  split
  · split
    · exact hop _ fun item hi => hraw _ (List.mem_map_of_mem hi)
    · exact h
  · split
    · exact hop _ fun item hi => hraw _ (List.mem_map_of_mem hi)
    · exact h
  · exact h

theorem Feeds.Scaled.mbofdRecovery (ho : PassesPrices env.mboSequencer orderPrices heldO)
    {f : Feeds Qp Qo} (h : f.Scaled heldP heldO raw) (streamId : Nat) (sequence : Sequence)
    {message : Message} (hraw : ∀ x ∈ rawPrices message, x ∈ raw) :
    (f.step env (.mbofdRecovery streamId sequence message)).Scaled heldP heldO raw := by
  simp only [Feeds.step, MBOFDMarketRecovery.onMessage]
  split
  · next value =>
    split
    · refine h.onSecurity _ _ (fun s =>
        (MBOFDMarketRecovery.snapshotFullRefreshOrderBook53_same env streamId sequence value
          s).1) ?_
      intro s hs
      refine MBOFDMarketRecovery.snapshotFullRefreshOrderBook53_leaves ho streamId sequence ?_
        (h.shared.held _ s hs)
      exact fun item hi => ⟨s, _, hs, hraw _ (List.mem_map_of_mem hi), rfl⟩
    · exact h
  · exact h

theorem Feeds.Scaled.step (hp : PassesPrices env.mbpSequencer levelPrices heldP)
    (ho : PassesPrices env.mboSequencer orderPrices heldO) {f : Feeds Qp Qo}
    (h : f.Scaled heldP heldO raw) {d : Delivery} (hraw : ∀ x ∈ d.rawPrices, x ∈ raw) :
    (f.step env d).Scaled heldP heldO raw := by
  cases d with
  | incremental channelId streamId frame message =>
    exact h.incremental hp ho channelId streamId frame hraw
  | sequenceReset channelId =>
    refine ⟨h.shared, ?_, h.pending, step_tidy env f _ h.tidy⟩
    intro c
    by_cases hc : c = channelId
    · subst hc
      simp only [Feeds.step, Function.update_self]
      intro o ho
      cases ho
    · simp only [Feeds.step, Function.update_of_ne hc]
      exact h.orders47 c
  | instrumentDefinition streamId frame message =>
    exact h.instrumentDefinition hp ho streamId frame message
  | mbpRecovery streamId frame sequence message =>
    exact h.mbpRecovery hp streamId frame sequence hraw
  | mbofdRecovery streamId sequence message =>
    exact h.mbofdRecovery ho streamId sequence hraw

theorem Feeds.Scaled.run (hp : PassesPrices env.mbpSequencer levelPrices heldP)
    (ho : PassesPrices env.mboSequencer orderPrices heldO) (deliveries : List Delivery)
    {f : Feeds Qp Qo} (h : f.Scaled heldP heldO raw)
    (hraw : ∀ d ∈ deliveries, ∀ x ∈ d.rawPrices, x ∈ raw) :
    (Feeds.run env deliveries f).Scaled heldP heldO raw := by
  induction deliveries generalizing f with
  | nil => exact h
  | cons d deliveries ih =>
    exact ih (h.step hp ho (hraw d List.mem_cons_self))
      fun d' hd' => hraw d' (List.mem_cons_of_mem d hd')

theorem scaled_ofSecDefs (hp : PassesPrices env.mbpSequencer levelPrices heldP)
    (ho : PassesPrices env.mboSequencer orderPrices heldO) (items : List SecDef) :
    (Feeds.ofSecDefs env items).Scaled heldP heldO raw := by
  refine ⟨⟨?_, ?_⟩, ?_, ?_, fun _ => Cache.tidy_empty⟩
  · intro i s hs x hx
    obtain ⟨exchange, symbol, factor, discard, rfl⟩ := load_securities _ _ _ items i s hs
    rw [heldPrices_newSecurity hp ho] at hx
    cases hx
  · intro r hr
    cases hr
  · intro c o ho
    cases ho
  · intro e he
    cases he

end Runs

/-- The tick of an instrument is its increment times its factor; a raw price of so many increments
is then published as so many ticks. -/
def OnScale (increment factor tick : Double) : Prop :=
  tick = increment.mul factor ∧
    ∀ k : ℤ, (increment.mul (some k)).mul factor = tick.mul (some k)

theorem onScale_iff (increment factor tick : Double) :
    OnScale increment factor tick ↔ tick = increment.mul factor := by
  refine ⟨fun h => h.1, fun h => ⟨h, ?_⟩⟩
  intro k
  rw [h]
  cases increment with
  | none => rfl
  | some x =>
    cases factor with
    | none => rfl
    | some y =>
      simp only [Double.mul]
      rw [mul_right_comm]

def Delivery.definition : Delivery → Option InstrumentDefinition
  | .incremental _ _ _ (.instrumentDefinition value)
  | .instrumentDefinition _ _ (.instrumentDefinition value) => some value
  | _ => none

/-- The prices and the ticks of a run. The prices are all those handed to a sequencer or published
for a security; the ticks are those of the reference data that a definition leads to. -/
structure OnePriceScale (env : Env Qp Qo) (items : List SecDef) (deliveries : List Delivery) :
    Prop where
  prices : ∀ r ∈ (Feeds.run env deliveries (Feeds.ofSecDefs env items)).shared.trace,
    ∀ e ∈ r.effects, ∀ x ∈ e.prices,
      Lookup.Scaled
        (Feeds.run env deliveries (Feeds.ofSecDefs env items)).shared.securityDefinitions.securities
        (deliveries.flatMap Delivery.rawPrices) r.securityId x
  ticks : Each (fun before d => ∀ value, d.definition = some value →
    ∀ r ∈ (Feeds.run env before (Feeds.ofSecDefs env items)).added env d,
      ∀ rd, .publish (.referenceData rd) ∈ r.effects → r.securityId = value.securityID ∧
        ∃ s, (Feeds.run env deliveries
            (Feeds.ofSecDefs env items)).shared.securityDefinitions.securities r.securityId =
              some s ∧
          OnScale (priceNull9 value.minPriceIncrement) s.displayFactor rd.tickSize) deliveries

/-- The definition, if the delivery leads to reference data. The definition feed publishes what is
new; the incremental feed publishes a new future and every other instrument that is known. -/
def Feeds.tells (f : Feeds Qp Qo) : Delivery → Option InstrumentDefinition
  | .incremental _ _ _ (.instrumentDefinition value) =>
    if value.kind = .future54 ↔ f.shared.securityDefinitions.hasSecurity value.securityID = true then
      none
    else some value
  | .instrumentDefinition _ _ (.instrumentDefinition value) =>
    if f.shared.securityDefinitions.hasSecurity value.securityID then none else some value
  | _ => none

/-- The display factor of the instrument: that of the table, or of the definition if it is new. -/
def Feeds.factorOf (f : Feeds Qp Qo) (value : InstrumentDefinition) : Double :=
  match f.shared.securityDefinitions.securities value.securityID with
  | some s => s.displayFactor
  | none => price9 value.displayFactor

/-- The kinds that scale, and the increments that scaling leaves as they are. -/
def TickScaled (value : InstrumentDefinition) (factor : Double) : Prop :=
  value.kind = .future54 ∨ value.kind = .option55 ∨ value.minPriceIncrement = none ∨
    factor = some 1 ∨ value.minPriceIncrement = some 0 ∧ factor ≠ none

theorem mul_eq_self_iff (increment : Option Int) (factor : Double) :
    priceNull9 increment = (priceNull9 increment).mul factor ↔
      increment = none ∨ factor = some 1 ∨ increment = some 0 ∧ factor ≠ none := by
  cases increment with
  | none => simp [priceNull9, Double.mul]
  | some mantissa =>
    cases factor with
    | none => simp [priceNull9, price9, Double.mul]
    | some y =>
      simp only [priceNull9, price9, Option.bind_some, Double.mul, Option.some.injEq, reduceCtorEq,
        false_or, ne_eq, not_false_eq_true, and_true]
      have hzero : (mantissa : ℚ) / 1000000000 = 0 ↔ mantissa = 0 := by
        rw [div_eq_zero_iff, Int.cast_eq_zero, or_iff_left (by decide)]
      rw [eq_comm, mul_right_eq_self₀, hzero]

theorem createReferenceData_tick_iff (value : InstrumentDefinition) (streamId : Nat)
    (s : Security Qp Qo) :
    (createReferenceData value streamId s).tickSize =
        (priceNull9 value.minPriceIncrement).mul s.displayFactor ↔
      TickScaled value s.displayFactor := by
  have hself := mul_eq_self_iff value.minPriceIncrement s.displayFactor
  cases hkind : value.kind with
  | future54 | option55 => simp [createReferenceData, TickScaled, hkind]
  | spread56 | fixedIncome57 | repo58 | fx63 =>
    simp only [createReferenceData, TickScaled, hkind, hself, reduceCtorEq, false_or]

/-- The reference data of one definition, in the only record that is added. -/
theorem Feeds.added_referenceData {env : Env Qp Qo} {f : Feeds Qp Qo} {d : Delivery} {ctx : Context}
    {shared : Shared Qp Qo} {value : InstrumentDefinition} {s : Security Qp Qo}
    (hstep : (f.step env d).shared =
      performAll env ctx [⟨value.securityID, .referenceData value⟩] shared)
    (htrace : shared.trace = f.shared.trace)
    (hs : shared.securityDefinitions.securities value.securityID = some s) :
    (f.step env d).shared.securityDefinitions.securities value.securityID = some s ∧
      f.added env d =
        [⟨value.securityID, .referenceData, ((Action.referenceData value).op env ctx s).2⟩] := by
  constructor
  · rw [hstep, performAll_referenceData]
    exact hs
  · have hrecord : (performAll env ctx [⟨value.securityID, .referenceData value⟩] shared).trace =
        shared.trace ++
          [⟨value.securityID, .referenceData, ((Action.referenceData value).op env ctx s).2⟩] := by
      simp only [performAll, List.foldl_cons, List.foldl_nil, Call.perform, Shared.onSecurity, hs]
      rfl
    rw [Feeds.added, hstep, hrecord, htrace, List.drop_left]

theorem mem_referenceData_op (env : Env Qp Qo) (ctx : Context) (value : InstrumentDefinition)
    (s : Security Qp Qo) (rd : ReferenceData) :
    .publish (.referenceData rd) ∈ ((Action.referenceData value).op env ctx s).2 ↔
      rd = createReferenceData value ctx.streamId s := by
  simp only [Action.op, List.mem_cons, Effect.publish.injEq, Published.referenceData.injEq]
  split
  · simp
  · simp [createMarketStatus]

/-- The table with the definition has its instrument, with the factor of the table before it or with
its own. -/
theorem Feeds.define_factorOf (env : Env Qp Qo) (f : Feeds Qp Qo) (value : InstrumentDefinition) :
    ∃ s, s.displayFactor = f.factorOf value ∧
      (f.shared.securityDefinitions.define env.discardSymbol env.mbpSequencer.init
        env.mboSequencer.init value).securities value.securityID = some s := by
  rw [define_securities_eq, if_pos rfl]
  refine ⟨_, ?_, rfl⟩
  rw [Feeds.factorOf]
  cases f.shared.securityDefinitions.securities value.securityID with
  | some s => rfl
  | none => rfl

/-- A definition that is published is in the table by then. -/
theorem Feeds.step_of_tells (env : Env Qp Qo) {f : Feeds Qp Qo} {d : Delivery}
    {value : InstrumentDefinition} (h : f.tells d = some value) :
    ∃ ctx, (f.step env d).shared = performAll env ctx [⟨value.securityID, .referenceData value⟩]
      { f.shared with
        securityDefinitions := f.shared.securityDefinitions.define env.discardSymbol
          env.mbpSequencer.init env.mboSequencer.init value } := by
  cases d with
  | incremental channelId streamId frame message =>
    cases message with
    | instrumentDefinition value' =>
      simp only [Feeds.tells] at h
      split at h
      · cases h
      · next hnot =>
        cases h
        refine ⟨⟨streamId, frame, 0⟩, ?_⟩
        by_cases hkind : value.kind = .future54
        · have hnew : f.shared.securityDefinitions.hasSecurity value.securityID = false := by
            simpa [hkind] using hnot
          simp [Feeds.step, Incremental.onMessage, react, instrumentDefinition, definitionsAfter,
            hnew, hkind]
        · have hknown : f.shared.securityDefinitions.hasSecurity value.securityID = true := by
            simpa [hkind] using hnot
          obtain ⟨s, hs⟩ := Option.isSome_iff_exists.1 hknown
          rw [define_of_hasSecurity _ _ _ hknown]
          simp [Feeds.step, Incremental.onMessage, react, instrumentDefinition, definitionsAfter,
            SecurityDefinitions.getSecurityInclDiscard, hs, hkind]
    | _ => cases h
  | instrumentDefinition streamId frame message =>
    cases message with
    | instrumentDefinition value' =>
      simp only [Feeds.tells] at h
      split at h
      · cases h
      · next hnew =>
        cases h
        refine ⟨⟨streamId, frame, 0⟩, ?_⟩
        simp only [Feeds.step, InstrumentDefinition.onMessage, if_neg hnew]
    | _ => cases h
  | _ => cases h

theorem Feeds.trace_of_tells_none (env : Env Qp Qo) {f : Feeds Qp Qo} {d : Delivery}
    {value : InstrumentDefinition} (hd : d.definition = some value) (h : f.tells d = none) :
    (f.step env d).shared.trace = f.shared.trace := by
  cases d with
  | incremental channelId streamId frame message =>
    cases message with
    | instrumentDefinition value' =>
      cases hd
      simp only [Feeds.tells] at h
      split at h
      · next hiff =>
        by_cases hkind : value.kind = .future54
        · have hknown := hiff.1 hkind
          simp [Feeds.step, Incremental.onMessage, react, instrumentDefinition, hknown, hkind,
            performAll]
        · have hnone : f.shared.securityDefinitions.securities value.securityID = none := by
            have hnew := fun hknown => hkind (hiff.2 hknown)
            simpa [SecurityDefinitions.hasSecurity] using hnew
          simp [Feeds.step, Incremental.onMessage, react, instrumentDefinition,
            SecurityDefinitions.getSecurityInclDiscard, hnone, hkind, performAll]
      · cases h
    | _ => cases hd
  | instrumentDefinition streamId frame message =>
    cases message with
    | instrumentDefinition value' =>
      cases hd
      simp only [Feeds.tells] at h
      split at h
      · next hknown => simp only [Feeds.step, InstrumentDefinition.onMessage, if_pos hknown]
      · cases h
    | _ => cases hd
  | _ => cases hd

theorem Feeds.definition_of_tells {f : Feeds Qp Qo} {d : Delivery} {value : InstrumentDefinition}
    (h : f.tells d = some value) : d.definition = some value := by
  cases d with
  | incremental channelId streamId frame message =>
    cases message with
    | instrumentDefinition value' =>
      simp only [Feeds.tells] at h
      split at h
      · cases h
      · exact h
    | _ => cases h
  | instrumentDefinition streamId frame message =>
    cases message with
    | instrumentDefinition value' =>
      simp only [Feeds.tells] at h
      split at h
      · cases h
      · exact h
    | _ => cases h
  | _ => cases h

/-- A definition leads to no record, or to the one with its reference data. -/
theorem Feeds.added_definition (env : Env Qp Qo) (f : Feeds Qp Qo) {d : Delivery}
    {value : InstrumentDefinition} (hd : d.definition = some value) :
    (f.tells d = none ∧ f.added env d = []) ∨
      (f.tells d = some value ∧ ∃ ctx s, s.displayFactor = f.factorOf value ∧
        (f.step env d).shared.securityDefinitions.securities value.securityID = some s ∧
        f.added env d =
          [⟨value.securityID, .referenceData, ((Action.referenceData value).op env ctx s).2⟩]) := by
  cases ht : f.tells d with
  | none =>
    refine Or.inl ⟨rfl, ?_⟩
    rw [Feeds.added, f.trace_of_tells_none env hd ht, List.drop_length]
  | some value' =>
    have hvalue := Feeds.definition_of_tells ht
    rw [hd, Option.some.injEq] at hvalue
    subst hvalue
    obtain ⟨ctx, hstep⟩ := f.step_of_tells env ht
    obtain ⟨s, hfactor, hs⟩ := f.define_factorOf env value
    exact Or.inr ⟨rfl, ctx, s, hfactor, Feeds.added_referenceData hstep rfl hs⟩

/-- The instruments of a delivery are those of the whole run. -/
theorem run_grown_after (env : Env Qp Qo) (f : Feeds Qp Qo) {before : List Delivery} {d : Delivery}
    {after deliveries : List Delivery} (h : deliveries = before ++ d :: after) :
    Grown ((Feeds.run env before f).step env d).shared.securityDefinitions
      (Feeds.run env deliveries f).shared.securityDefinitions := by
  rw [h, Feeds.run_append]
  exact run_grown env after _

theorem OnePriceScale.tickScaled {env : Env Qp Qo} {items : List SecDef} {deliveries : List Delivery}
    (h : OnePriceScale env items deliveries) :
    Each (fun before d => ∀ value,
      (Feeds.run env before (Feeds.ofSecDefs env items)).tells d = some value →
        TickScaled value ((Feeds.run env before (Feeds.ofSecDefs env items)).factorOf value))
      deliveries := by
  intro before d after hsplit value htells
  have hd := Feeds.definition_of_tells htells
  obtain ⟨hnone, -⟩ | ⟨-, ctx, s, hfactor, hs, hadded⟩ := Feeds.added_definition env
    (Feeds.run env before (Feeds.ofSecDefs env items)) hd
  · rw [hnone] at htells
    cases htells
  · obtain ⟨s', hs', hsame⟩ := run_grown_after env _ hsplit _ s hs
    obtain ⟨-, t, ht, hscale⟩ := h.ticks before d after hsplit value hd _
      (by rw [hadded]; exact List.mem_singleton_self _) _
      ((mem_referenceData_op env ctx value s _).2 rfl)
    rw [hs', Option.some.injEq] at ht
    rw [← ht, hsame.displayFactor] at hscale
    rw [← hfactor]
    exact (createReferenceData_tick_iff value ctx.streamId s).1 hscale.1

/-- In a run from any secdef file, with sequencers that make no prices, everything is on one scale
if and only if every definition that is published scales its tick or does not have to. -/
theorem one_price_scale_iff (env : Env Qp Qo) {heldP : Qp → List Double} {heldO : Qo → List Double}
    (hp : PassesPrices env.mbpSequencer levelPrices heldP)
    (ho : PassesPrices env.mboSequencer orderPrices heldO) (items : List SecDef)
    (deliveries : List Delivery) :
    OnePriceScale env items deliveries ↔
      Each (fun before d => ∀ value,
        (Feeds.run env before (Feeds.ofSecDefs env items)).tells d = some value →
          TickScaled value ((Feeds.run env before (Feeds.ofSecDefs env items)).factorOf value))
        deliveries := by
  refine ⟨fun h => h.tickScaled, fun h => ⟨?_, ?_⟩⟩
  · refine ((scaled_ofSecDefs hp ho items).run hp ho deliveries ?_).shared.trace
    intro d hd x hx
    exact List.mem_flatMap.2 ⟨d, hd, hx⟩
  · intro before d after hsplit value hd r hr rd hrd
    obtain ⟨-, hnil⟩ | ⟨htells, ctx, s, hfactor, hs, hadded⟩ := Feeds.added_definition env
      (Feeds.run env before (Feeds.ofSecDefs env items)) hd
    · rw [hnil] at hr
      cases hr
    · rw [hadded, List.mem_singleton] at hr
      subst hr
      obtain ⟨s', hs', hsame⟩ := run_grown_after env _ hsplit _ s hs
      have htick := h before d after hsplit value htells
      rw [← hfactor] at htick
      refine ⟨rfl, s', hs', ?_⟩
      rw [onScale_iff, hsame.displayFactor, (mem_referenceData_op env ctx value s rd).1 hrd]
      exact (createReferenceData_tick_iff value ctx.streamId s).2 htick

/-- A future, one of its prices and a spread whose prices are not scaled. -/
theorem one_price_scale_future_and_spread :
    let env := Env.direct {}
    let future := InstrumentDefinition.sample .future54 118 "ESU4" "ES"
    let spread := { InstrumentDefinition.sample .spread56 119 "ESU4-ESZ4" "ES" with
      displayFactor := 1000000000 }
    OnePriceScale env []
      [.instrumentDefinition 1 ⟨1, 0⟩ (.instrumentDefinition future),
        .incremental 310 1 ⟨1, 0⟩ (.book46 ⟨100,
          [⟨some 550025000000000, some 3, 118, 1, some 1, some 1, .new, .bid⟩], []⟩),
        .instrumentDefinition 1 ⟨2, 0⟩ (.instrumentDefinition spread)] := by
  intro env future spread
  refine (one_price_scale_iff env (passesPrices_direct levelPrices) (passesPrices_direct orderPrices)
    [] _).2 ?_
  refine each_cons.2 ⟨?_, each_cons.2 ⟨?_, each_cons.2 ⟨?_, each_nil _⟩⟩⟩
  · intro value hv
    have hfuture : some future = some value := hv
    cases hfuture
    exact Or.inl rfl
  · intro value hv
    cases hv
  · intro value hv
    have hspread : some spread = some value := hv
    cases hspread
    exact Or.inr (Or.inr (Or.inr (Or.inl (by decide +kernel))))

/-- A spread quoted in hundredths: an increment of 25 is published as a tick of 25, where its prices
go in steps of 0.25. -/
theorem spread_tick_off_scale :
    let env := Env.direct {}
    let spread := InstrumentDefinition.sample .spread56 119 "ESU4-ESZ4" "ES"
    ¬ OnePriceScale env []
      [.instrumentDefinition 1 ⟨1, 0⟩ (.instrumentDefinition spread)] := by
  intro env spread h
  have htick : TickScaled spread (price9 10000000) := (each_cons.1 h.tickScaled).1 spread rfl
  obtain hk | hk | hk | hk | ⟨hk, -⟩ := htick
  all_goals exact absurd hk (by decide +kernel)

end RoqCme.MarketData
