import RoqCme.MarketData.Operations
import RoqCme.MarketData.DefinitionTable
import RoqCme.MarketData.Feeds
import Mathlib.Data.List.Induction

/-! Price snapshots of the recovery feed. A snapshot that is due is submitted only if it has a bid or
an offer, so an instrument with an empty book keeps waiting. -/
namespace RoqCme.MarketData
open RoqCme.Mdp RoqCme.Tools
variable {Qp Qo : Type}

/-- What was submitted to the sequencers of prices, with the security and the exchange sequence. -/
def mbpSubmissions (trace : List Record) : List (Int × PriceLevels × Nat) :=
  trace.flatMap fun record => record.effects.filterMap fun
    | .submitMbp levels exchangeSequence _ => some (record.securityId, levels, exchangeSequence)
    | _ => none

namespace MBPMarketRecovery

/-- The entries of one type, in order. -/
def side (type : MDEntryType) (items : List Snapshot52.Entry) (security : Security Qp Qo) :
    List MBPUpdate :=
  (items.filter fun item => item.mDEntryType = type).map fun item => mbpUpdate item security

/-- The security waits for a snapshot and this one is not older than its mark. -/
def Due (security : Security Qp Qo) (value : Snapshot52) : Prop :=
  security.mbp.resubscribe ≠ 0 ∧ security.mbp.resubscribe ≤ value.lastMsgSeqNumProcessed

/-- A snapshot that is due is submitted once, with its bids and its offers; any other one changes
nothing. -/
structure Uses (value : Snapshot52) (security : Security Qp Qo) (before after : Shared Qp Qo) :
    Prop where
  due : Due security value → mbpSubmissions after.trace = mbpSubmissions before.trace ++
    [(value.securityID, (side .bid value.noMDEntries security,
      side .offer value.noMDEntries security), value.lastMsgSeqNumProcessed)]
  other : ¬ Due security value → mbpSubmissions after.trace = mbpSubmissions before.trace ∧
    after.securityDefinitions = before.securityDefinitions ∧ after.pending = before.pending

theorem levels_eq (items : List Snapshot52.Entry) (security : Security Qp Qo) :
    levels items security = (side .bid items security, side .offer items security) := by
  induction items using List.reverseRecOn with
  | nil => rfl
  | append_singleton items item ih =>
    have hstep : ∀ type, side type (items ++ [item]) security = side type items security ++
        if item.mDEntryType = type then [mbpUpdate item security] else [] := by
      intro type
      by_cases h : item.mDEntryType = type
      · simp [side, h]
      · simp [side, h]
    rw [levels] at ih ⊢
    rw [List.foldl_append, ih, hstep, hstep]
    cases h : item.mDEntryType <;> simp [h]

/-- The effects of a submission are the submission itself and what it leads to. -/
theorem dispatchMarketByPrice_submits (env : Env Qp Qo) (ctx : Context) (sequence : Sequence)
    (exchangeSequence : Nat) (levels : PriceLevels) (s : Security Qp Qo)
    (h : s.mbp.resubscribe ≠ 0) : ∃ mode echoes, (∀ e ∈ echoes, Echo .mbp e) ∧
      (dispatchMarketByPrice env ctx sequence exchangeSequence levels s).2 =
        .submitMbp levels exchangeSequence mode :: echoes := by
  rw [dispatchMarketByPrice, if_neg h]
  refine ⟨_, _, ?_, rfl⟩
  intro e he
  refine (Callbacks.recover_follows _ _ _ _ _ _ _ e he).echo ?_ ?_
  · intro levels
    exact .price _ _ _ _ UpdateType.noConfusion
  · intro levels n
    exact .price _ _ _ _ UpdateType.noConfusion

theorem mbpSubmissions_append (trace trace' : List Record) :
    mbpSubmissions (trace ++ trace') = mbpSubmissions trace ++ mbpSubmissions trace' :=
  List.flatMap_append

/-- What follows a submission is no submission. -/
theorem mbpSubmissions_echoes (securityId : Int) (site : Site) (levels : PriceLevels)
    (exchangeSequence : Nat) (mode : Mode) {echoes : List Effect} (h : ∀ e ∈ echoes, Echo .mbp e) :
    mbpSubmissions [⟨securityId, site, .submitMbp levels exchangeSequence mode :: echoes⟩] =
      [(securityId, levels, exchangeSequence)] := by
  simp only [mbpSubmissions, List.flatMap_cons, List.flatMap_nil, List.append_nil,
    List.filterMap_cons, List.cons.injEq, true_and, List.filterMap_eq_nil_iff]
  intro e he
  cases h e he <;> rfl

theorem onMessage_eq (env : Env Qp Qo) (streamId : Nat) (frame : Frame) (sequence : Sequence)
    (shared : Shared Qp Qo) {value : Snapshot52} {message : Message} {security : Security Qp Qo}
    (hm : message = .snapshotFullRefresh52 value ∨ message = .snapshotFullRefreshLongQty69 value)
    (h : shared.securityDefinitions.getSecurity value.securityID = some security) :
    let result := snapshotFullRefresh env ⟨streamId, frame, 0⟩ sequence value security
    onMessage env streamId frame sequence shared message =
      { shared with
        securityDefinitions := shared.securityDefinitions.setSecurity value.securityID result.1
        trace := shared.trace ++ [⟨value.securityID, .mbpMarketRecovery, result.2⟩] } := by
  have hknown : shared.securityDefinitions.securities value.securityID = some security :=
    (getSecurity_eq_some.1 h).1
  have hop : onMessage env streamId frame sequence shared message =
      shared.onSecurity value.securityID .mbpMarketRecovery
        (snapshotFullRefresh env ⟨streamId, frame, 0⟩ sequence value) := by
    obtain rfl | rfl := hm
    · simp only [onMessage, h]
    · simp only [onMessage, h]
  rw [hop, Shared.onSecurity, hknown]

theorem side_eq_nil_iff (type : MDEntryType) (items : List Snapshot52.Entry)
    (security : Security Qp Qo) :
    side type items security = [] ↔ ∀ item ∈ items, item.mDEntryType ≠ type := by
  simp [side, List.filter_eq_nil_iff]

/-- Leaving a snapshot out is right for those that are not due. -/
theorem uses_skip_iff {shared : Shared Qp Qo} {value : Snapshot52} {security : Security Qp Qo}
    (h : shared.securityDefinitions.getSecurity value.securityID = some security) :
    Uses value security shared { shared with
      securityDefinitions := shared.securityDefinitions.setSecurity value.securityID security
      trace := shared.trace ++ [⟨value.securityID, .mbpMarketRecovery, []⟩] } ↔
        ¬ Due security value := by
  have hnone : mbpSubmissions [⟨value.securityID, .mbpMarketRecovery, []⟩] = [] := rfl
  constructor
  · intro hused hdue
    have hsubmitted := hused.due hdue
    rw [mbpSubmissions_append, hnone] at hsubmitted
    simp at hsubmitted
  · intro hdue
    refine ⟨fun hd => absurd hd hdue, fun _ => ⟨?_, setSecurity_self (getSecurity_eq_some.1 h).1, rfl⟩⟩
    rw [mbpSubmissions_append, hnone, List.append_nil]

theorem snapshotFullRefresh_of_not_due (env : Env Qp Qo) (ctx : Context) (sequence : Sequence)
    {value : Snapshot52} {security : Security Qp Qo} (h : ¬ Due security value) :
    snapshotFullRefresh env ctx sequence value security = (security, []) := by
  rw [snapshotFullRefresh, if_pos]
  rw [Due, not_and_or, not_not, Nat.not_le] at h
  exact h

theorem snapshotFullRefresh_of_due (env : Env Qp Qo) (ctx : Context) (sequence : Sequence)
    {value : Snapshot52} {security : Security Qp Qo} (h : Due security value) :
    snapshotFullRefresh env ctx sequence value security =
      if levels value.noMDEntries security = ([], []) then (security, [])
      else dispatchMarketByPrice env { ctx with exchangeTimeUtc := value.transactTime } sequence
        value.lastMsgSeqNumProcessed (levels value.noMDEntries security) security := by
  rw [snapshotFullRefresh, if_neg]
  rw [not_or, Nat.not_lt]
  exact h

theorem levels_ne_iff (items : List Snapshot52.Entry) (security : Security Qp Qo) :
    levels items security ≠ ([], []) ↔
      ∃ item ∈ items, item.mDEntryType = .bid ∨ item.mDEntryType = .offer := by
  rw [levels_eq, ne_eq, Prod.mk.injEq, side_eq_nil_iff, side_eq_nil_iff]
  constructor
  · intro h
    by_contra hnone
    push Not at hnone
    exact h ⟨fun item hi => (hnone item hi).1, fun item hi => (hnone item hi).2⟩
  · rintro ⟨item, hi, htype⟩ ⟨hbid, hoffer⟩
    exact htype.elim (hbid item hi) (hoffer item hi)

/-- A snapshot is used as it should be exactly when it is not due or has a bid or an offer. -/
theorem snapshot_used_iff (env : Env Qp Qo) (streamId : Nat) (frame : Frame) (sequence : Sequence)
    (shared : Shared Qp Qo) (value : Snapshot52) (message : Message) (security : Security Qp Qo)
    (hm : message = .snapshotFullRefresh52 value ∨ message = .snapshotFullRefreshLongQty69 value)
    (h : shared.securityDefinitions.getSecurity value.securityID = some security) :
    Uses value security shared (onMessage env streamId frame sequence shared message) ↔
      security.mbp.resubscribe = 0 ∨
        value.lastMsgSeqNumProcessed < security.mbp.resubscribe ∨
        ∃ item ∈ value.noMDEntries, item.mDEntryType = .bid ∨ item.mDEntryType = .offer := by
  have hnot : ¬ Due security value ↔ security.mbp.resubscribe = 0 ∨
      value.lastMsgSeqNumProcessed < security.mbp.resubscribe := by
    rw [Due, not_and_or, not_not, Nat.not_le]
  rw [onMessage_eq env streamId frame sequence shared hm h, ← or_assoc, ← hnot,
    ← levels_ne_iff value.noMDEntries security]
  by_cases hdue : Due security value
  · rw [snapshotFullRefresh_of_due env _ sequence hdue]
    by_cases hempty : levels value.noMDEntries security = ([], [])
    · rw [if_pos hempty, uses_skip_iff h]
      refine iff_of_false (not_not.2 hdue) ?_
      rintro (hn | hn)
      · exact hn hdue
      · exact hn hempty
    · refine iff_of_true ⟨fun _ => ?_, fun hn => absurd hdue hn⟩ (Or.inr hempty)
      obtain ⟨mode, echoes, hecho, heffects⟩ := dispatchMarketByPrice_submits env
        ⟨streamId, frame, value.transactTime⟩ sequence value.lastMsgSeqNumProcessed
        (levels value.noMDEntries security) security hdue.1
      rw [if_neg hempty, heffects, mbpSubmissions_append, mbpSubmissions_echoes _ _ _ _ _ hecho,
        levels_eq]
  · rw [snapshotFullRefresh_of_not_due env _ sequence hdue, uses_skip_iff h]
    exact iff_of_true hdue (Or.inl hdue)

/-- One contract after a report was lost, with the fifth as the first one received. -/
def stale : Feeds (Option Nat) (Option Nat) :=
  let env := Env.direct { enableMarketByOrder := true }
  Feeds.run env [.incremental 310 1 ⟨3, 0⟩ (.limitsBanding50 [⟨7, 5⟩])]
    (Feeds.ofSecDefs env [SecDef.sample 7 "ESZ5"])

theorem stale_waits : ∃ security, stale.shared.securityDefinitions.getSecurity 7 = some security ∧
    security.mbp.resubscribe = 3 ∧ security.mbo.resubscribe = 3 := by
  have h : (stale.shared.securityDefinitions.getSecurity 7).map
      (fun s => (s.mbp.resubscribe, s.mbo.resubscribe)) = some (3, 3) := by
    decide +kernel
  obtain ⟨security, hs, hmarks⟩ := Option.map_eq_some_iff.1 h
  exact ⟨security, hs, Prod.mk.inj hmarks⟩

theorem snapshot_used_with_bid :
    let value : Snapshot52 := ⟨3, 7, 0, [⟨some 1, some 1, none, some 1, .bid⟩]⟩
    ∃ security, stale.shared.securityDefinitions.getSecurity 7 = some security ∧
      Due security value ∧ Uses value security stale.shared
        (onMessage (Env.direct { enableMarketByOrder := true }) 2 ⟨1, 0⟩ ⟨1, 3⟩ stale.shared
          (.snapshotFullRefresh52 value)) := by
  intro value
  obtain ⟨security, h, hmbp, -⟩ := stale_waits
  have hdue : Due security value := ⟨by rw [hmbp]; decide, hmbp.le⟩
  refine ⟨security, h, hdue, ?_⟩
  exact (snapshot_used_iff (Env.direct { enableMarketByOrder := true }) 2 ⟨1, 0⟩ ⟨1, 3⟩
    stale.shared value (.snapshotFullRefresh52 value) security (Or.inl rfl) h).2
      (Or.inr (Or.inr ⟨_, List.mem_singleton_self _, Or.inl rfl⟩))

/-- Both books wait. The empty snapshot of the prices is left out, the one of the orders is used. -/
theorem empty_snapshot_not_used :
    let env := Env.direct { enableMarketByOrder := true }
    ∃ security, stale.shared.securityDefinitions.getSecurity 7 = some security ∧
      security.mbp.resubscribe = 3 ∧ security.mbo.resubscribe = 3 ∧
      ¬ Uses ⟨3, 7, 0, []⟩ security stale.shared
        (onMessage env 2 ⟨1, 0⟩ ⟨1, 3⟩ stale.shared (.snapshotFullRefresh52 ⟨3, 7, 0, []⟩)) ∧
      .submitMbo [] 3 (.snapshot true) ∈ (MBOFDMarketRecovery.onMessage env 2 ⟨1, 3⟩ stale.shared
        (.snapshotFullRefreshOrderBook53 ⟨3, 1, 1, 7, []⟩)).trace.flatMap Record.effects := by
  intro env
  obtain ⟨security, h, hmbp, hmbo⟩ := stale_waits
  refine ⟨security, h, hmbp, hmbo, ?_, by decide +kernel⟩
  intro hused
  have hsubmitted := hused.due ⟨by rw [hmbp]; decide, hmbp.le⟩
  have hnone : mbpSubmissions (onMessage env 2 ⟨1, 0⟩ ⟨1, 3⟩ stale.shared
      (.snapshotFullRefresh52 ⟨3, 7, 0, []⟩)).trace = [] := by
    decide +kernel
  rw [hnone] at hsubmitted
  simp at hsubmitted

end MBPMarketRecovery
end RoqCme.MarketData
