import RoqCme.MarketData.Reports
import RoqCme.MarketData.Views
import Mathlib.Data.List.Induction

/-! Gap detection by report numbers over whole runs. The entries of a security are seen by ten
templates on any number of channels; the history of what was seen decides every check. -/
namespace RoqCme.MarketData
open RoqCme.Mdp RoqCme.Tools
variable {Qp Qo : Type}

/-- An entry with a report number, as seen by the incremental feed. -/
structure Seen where
  streamId : Nat
  frame : Frame
  rptSeq : Nat
  deriving DecidableEq, Repr

/-- The entries for the security in a delivery, if the security is known and not discarded. -/
def seenIn (securityId : Int) (f : Feeds Qp Qo) : Delivery → List Seen
  | .incremental _ streamId frame message =>
    if (f.shared.securityDefinitions.getSecurity securityId).isSome then
      ((reportsOf message).filter fun r => r.1 = securityId).map fun r => ⟨streamId, frame, r.2⟩
    else []
  | _ => []

def seen (env : Env Qp Qo) (securityId : Int) : List Delivery → Feeds Qp Qo → List Seen
  | [], _ => []
  | d :: deliveries, f => seenIn securityId f d ++ seen env securityId deliveries (f.step env d)

/-- The last report number other than zero, or zero. -/
def previousReport (entries : List Seen) : Nat :=
  ((entries.map Seen.rptSeq).filter fun r => r ≠ 0).getLastD 0

def IsGap (before : List Seen) (e : Seen) : Prop :=
  e.rptSeq ≠ 0 ∧ e.rptSeq ≠ previousReport before + 1

instance (before : List Seen) (e : Seen) : Decidable (IsGap before e) :=
  inferInstanceAs (Decidable (_ ∧ _))

/-- Both sequencers cleared, both marks set to the frame number, both books stale. -/
def gapEffects (s : Security Qp Qo) (e : Seen) : List Effect :=
  let header := Context.header ⟨e.streamId, e.frame, 0⟩ s
  [.updateRptSeq e.rptSeq true,
    .clear .mbp, .resubscribe .mbp e.frame.sequenceNumber,
    .publish (.marketByPrice header [] [] .stale),
    .clear .mbo, .resubscribe .mbo e.frame.sequenceNumber,
    .publish (.marketByOrder header [] .stale)]

def expectedEffects (s : Security Qp Qo) (before : List Seen) (e : Seen) : List Effect :=
  if IsGap before e then gapEffects s e else [.updateRptSeq e.rptSeq false]

/-- The effects of the report checks among some records, check by check. -/
def checksIn (records : List Record) : List (List Effect) :=
  (records.filter fun r => r.site = .checkReportSequence).map Record.effects

theorem checksIn_append (xs ys : List Record) : checksIn (xs ++ ys) = checksIn xs ++ checksIn ys := by
  simp [checksIn]

/-- The security counts as its history says, and each check did what its entry asks for. -/
structure Tracks (s : Security Qp Qo) (entries : List Seen) (checks : List (List Effect)) :
    Prop where
  rptSeq : s.rptSeq = previousReport entries
  range : ∀ e ∈ entries, e.rptSeq < 2 ^ 32 - 1
  length : checks.length = entries.length
  effects : ∀ k e, entries[k]? = some e → checks[k]? = some (expectedEffects s (entries.take k) e)

theorem previousReport_concat (entries : List Seen) (e : Seen) :
    previousReport (entries ++ [e]) = if e.rptSeq = 0 then previousReport entries else e.rptSeq := by
  unfold previousReport
  by_cases h : e.rptSeq = 0
  · simp [List.filter_append, h]
  · simp [List.filter_append, h]

theorem previousReport_lt (entries : List Seen) (h : ∀ e ∈ entries, e.rptSeq < 2 ^ 32 - 1) :
    previousReport entries < 2 ^ 32 - 1 := by
  induction entries using List.reverseRecOn with
  | nil => simp [previousReport]
  | append_singleton entries e ih =>
    rw [previousReport_concat]
    split
    · exact ih (fun e' he' => h e' (List.mem_append_left _ he'))
    · exact h e (by simp)

theorem gapEffects_same {s t : Security Qp Qo} (h : SameInstrument s t) (e : Seen) :
    gapEffects t e = gapEffects s e := by
  simp only [gapEffects, Context.header, h.exchange, h.symbol]

theorem expectedEffects_same {s t : Security Qp Qo} (h : SameInstrument s t) (before : List Seen)
    (e : Seen) : expectedEffects t before e = expectedEffects s before e := by
  simp only [expectedEffects, gapEffects_same h]

/-- An operation that does not count reports. -/
theorem Tracks.keep {s t : Security Qp Qo} {entries : List Seen} {checks : List (List Effect)}
    (h : Tracks s entries checks) (hi : SameInstrument s t) (hr : t.rptSeq = s.rptSeq) :
    Tracks t entries checks where
  rptSeq := hr.trans h.rptSeq
  range := h.range
  length := h.length
  effects k e he := by rw [expectedEffects_same hi]; exact h.effects k e he

/-- The decision of `update_rpt_seq` is the gap as the history defines it. -/
theorem checkReportSequence_spec (env : Env Qp Qo) (ctx : Context) (r : Nat) (s : Security Qp Qo)
    (entries : List Seen) (h : s.rptSeq = previousReport entries)
    (hlt : previousReport entries < 2 ^ 32 - 1) :
    (checkReportSequence env ctx r s).2 =
        expectedEffects s entries ⟨ctx.streamId, ctx.frame, r⟩ ∧
      (checkReportSequence env ctx r s).1.rptSeq = if r = 0 then s.rptSeq else r := by
  by_cases h0 : r = 0
  · subst h0
    simp [checkReportSequence, Security.updateRptSeq, expectedEffects, IsGap]
  · have hnext : u32 (s.rptSeq + 1) = previousReport entries + 1 := by
      rw [h, u32, Nat.mod_eq_of_lt (by omega)]
    by_cases hg : r = previousReport entries + 1
    · have hgap : ¬ IsGap entries ⟨ctx.streamId, ctx.frame, r⟩ := fun hx => hx.2 hg
      simp [checkReportSequence, Security.updateRptSeq, expectedEffects, hgap, h0, hnext, ← hg]
    · have hgap : IsGap entries ⟨ctx.streamId, ctx.frame, r⟩ := ⟨h0, hg⟩
      simp [checkReportSequence, Security.updateRptSeq, expectedEffects, hgap, h0, hnext, hg,
        gapEffects, Context.header]

/-- One more entry has been seen and checked. -/
theorem Tracks.check (env : Env Qp Qo) (ctx : Context) (r : Nat) {s : Security Qp Qo}
    {entries : List Seen} {checks : List (List Effect)} (h : Tracks s entries checks)
    (hr : r < 2 ^ 32 - 1) :
    Tracks (checkReportSequence env ctx r s).1 (entries ++ [⟨ctx.streamId, ctx.frame, r⟩])
      (checks ++ [(checkReportSequence env ctx r s).2]) := by
  have hi := (checkReportSequence_same env ctx r s).1
  obtain ⟨heff, hseq⟩ := checkReportSequence_spec env ctx r s entries h.rptSeq
    (previousReport_lt entries h.range)
  refine ⟨?_, ?_, ?_, ?_⟩
  · rw [hseq, previousReport_concat, h.rptSeq]
  · intro e he
    cases List.mem_append.1 he with
    | inl he => exact h.range e he
    | inr he => rw [List.mem_singleton.1 he]; exact hr
  · rw [List.length_append, List.length_append, h.length]
    rfl
  · intro k e he
    rw [expectedEffects_same hi]
    by_cases hk : k < entries.length
    · rw [List.getElem?_append_left hk] at he
      rw [List.getElem?_append_left (by rw [h.length]; exact hk), h.effects k e he,
        List.take_append_of_le_length (Nat.le_of_lt hk)]
    · have hlen : k = entries.length := by
        have hb := (List.getElem?_eq_some_iff.1 he).1
        simp only [List.length_append, List.length_singleton] at hb
        omega
      subst hlen
      rw [List.getElem?_concat_length] at he
      simp only [Option.some.injEq] at he
      subst he
      rw [← h.length, List.getElem?_concat_length, heff, h.length, List.take_left]

/-- The report numbers of the checks among calls for the security. -/
def reportOf (securityId : Int) (call : Call) : List Nat :=
  match call.action with
  | .checkReportSequence r => if call.securityId = securityId then [r] else []
  | _ => []

theorem reportOf_observer (securityId : Int) : Observer (reportOf securityId) := by
  intro i action h
  unfold reportOf
  cases action with
  | checkReportSequence r => exact absurd rfl (h r)
  | _ => rfl

theorem reportOf_ne {securityId : Int} {call : Call} (h : call.securityId ≠ securityId) :
    reportOf securityId call = [] := by
  unfold reportOf
  split
  · rw [if_neg h]
  · rfl

theorem Action.op_rptSeq (env : Env Qp Qo) (ctx : Context) (a : Action) (s : Security Qp Qo)
    (h : ∀ r, a ≠ .checkReportSequence r) :
    (a.op env ctx s).1.rptSeq = s.rptSeq ∧ a.site ≠ .checkReportSequence := by
  cases a with
  | checkReportSequence r => exact absurd rfl (h r)
  | _ => exact ⟨rfl, by simp [Action.site]⟩

theorem performAll_tracks (env : Env Qp Qo) (ctx : Context) (calls : List Call)
    (securityId : Int) (shared : Shared Qp Qo) (s : Security Qp Qo)
    (entries : List Seen) (hs : (shared.view securityId).security = some s)
    (h : Tracks s entries (checksIn (shared.view securityId).records))
    (hr : ∀ r ∈ calls.flatMap (reportOf securityId), r < 2 ^ 32 - 1) :
    ∃ s', ((performAll env ctx calls shared).view securityId).security = some s' ∧
      Tracks s' (entries ++
          (calls.flatMap (reportOf securityId)).map fun r => ⟨ctx.streamId, ctx.frame, r⟩)
        (checksIn ((performAll env ctx calls shared).view securityId).records) := by
  induction calls generalizing shared s entries with
  | nil =>
    refine ⟨s, hs, ?_⟩
    rw [List.flatMap_nil, List.map_nil, List.append_nil]
    exact h
  | cons call calls ih =>
    have hv := view_perform env ctx shared call securityId
    have hr' : ∀ r ∈ calls.flatMap (reportOf securityId), r < 2 ^ 32 - 1 := by
      intro r hm
      exact hr r (by rw [List.flatMap_cons]; exact List.mem_append_right _ hm)
    by_cases he : call.securityId = securityId
    · rw [if_pos he] at hv
      simp only [View.apply, hs] at hv
      by_cases hrep : ∃ r, call.action = .checkReportSequence r
      · obtain ⟨r, ha⟩ := hrep
        have hone : reportOf securityId call = [r] := by
          simp only [reportOf, ha, he, if_true]
        have hlt : r < 2 ^ 32 - 1 := hr r (by rw [List.flatMap_cons, hone]; simp)
        simp only [ha, Action.op, Action.site] at hv
        have hstep := h.check env ctx r hlt
        obtain ⟨s', hs', ht⟩ := ih (call.perform env ctx shared) _
          (entries ++ [⟨ctx.streamId, ctx.frame, r⟩]) (by rw [hv]) (by
            rw [hv, checksIn_append]
            exact hstep) hr'
        refine ⟨s', hs', ?_⟩
        rw [List.flatMap_cons, hone, List.map_append, ← List.append_assoc]
        exact ht
      · have hno : ∀ r, call.action ≠ .checkReportSequence r := fun r ha => hrep ⟨r, ha⟩
        obtain ⟨hseq, hsite⟩ := Action.op_rptSeq env ctx call.action s hno
        have hnil := reportOf_observer securityId call.securityId call.action hno
        have hkeep := h.keep (Action.op_same env ctx call.action s).1 hseq
        obtain ⟨s', hs', ht⟩ := ih (call.perform env ctx shared) _ entries (by rw [hv]) (by
            rw [hv, checksIn_append]
            have hchecks : checksIn
                [⟨securityId, call.action.site, (call.action.op env ctx s).2⟩] = [] := by
              simp [checksIn, hsite]
            rw [hchecks, List.append_nil]
            exact hkeep) hr'
        refine ⟨s', hs', ?_⟩
        rw [List.flatMap_cons, hnil, List.nil_append]
        exact ht
    · rw [if_neg he] at hv
      have hnil := reportOf_ne he
      obtain ⟨s', hs', ht⟩ := ih (call.perform env ctx shared) s entries (by rw [hv]; exact hs)
        (by rw [hv]; exact h) hr'
      refine ⟨s', hs', ?_⟩
      rw [List.flatMap_cons, hnil, List.nil_append]
      exact ht

/-- `Tracks` for a security that may not exist yet. -/
def ViewTracks (v : View Qp Qo) (entries : List Seen) : Prop :=
  match v.security with
  | none => entries = [] ∧ checksIn v.records = []
  | some s => Tracks s entries (checksIn v.records)

theorem tracks_fresh (mbp : Qp) (mbo : Qo) (exchange symbol : String) (factor : Double)
    (discard : Bool) : Tracks (newSecurity mbp mbo exchange symbol factor discard) [] [] where
  rptSeq := rfl
  range e he := by cases he
  length := rfl
  effects k e he := by simp at he

/-- The checks a message leads to are those of its entries for the security. -/
theorem expected_reportOf (get : Lookup Qp Qo) (securityId : Int)
    (reports : List (Int × Nat)) :
    expected get (reportOf securityId) reports =
      if (get securityId).isSome then
        (reports.filter fun r => r.1 = securityId).map Prod.snd
      else [] := by
  induction reports with
  | nil => simp [expected]
  | cons r reports ih =>
    have hcons : expected get (reportOf securityId) (r :: reports) =
        (if (get r.1).isSome then reportOf securityId ⟨r.1, .checkReportSequence r.2⟩ else []) ++
          expected get (reportOf securityId) reports := rfl
    rw [hcons, ih]
    by_cases he : r.1 = securityId
    · subst he
      by_cases hk : (get r.1).isSome
      · simp [reportOf, hk]
      · simp [hk]
    · have hrep : reportOf securityId ⟨r.1, .checkReportSequence r.2⟩ = [] := by
        simp [reportOf, he]
      simp [hrep, he]

theorem ViewTracks.performAll (env : Env Qp Qo) (ctx : Context) (calls : List Call)
    (securityId : Int) (shared : Shared Qp Qo) (entries : List Seen)
    (h : ViewTracks (shared.view securityId) entries)
    (hr : ∀ r ∈ calls.flatMap (reportOf securityId), r < 2 ^ 32 - 1)
    (hnone : (shared.view securityId).security = none →
      calls.flatMap (reportOf securityId) = []) :
    ViewTracks ((performAll env ctx calls shared).view securityId) (entries ++
      (calls.flatMap (reportOf securityId)).map fun r => ⟨ctx.streamId, ctx.frame, r⟩) := by
  cases hs : (shared.view securityId).security with
  | none =>
    rw [view_performAll_none env ctx calls shared securityId hs, hnone hs, List.map_nil,
      List.append_nil]
    exact h
  | some s =>
    simp only [ViewTracks, hs] at h
    obtain ⟨s', hs', ht⟩ := performAll_tracks env ctx calls securityId shared s entries hs h hr
    simp only [ViewTracks, hs']
    exact ht

/-- A definition keeps what is known of the security; a new one has seen nothing. -/
theorem ViewTracks.define (env : Env Qp Qo) (value : InstrumentDefinition) (securityId : Int)
    (shared : Shared Qp Qo) (sd : SecurityDefinitions Qp Qo) (entries : List Seen)
    (hsd : sd = shared.securityDefinitions.define env.discardSymbol env.mbpSequencer.init
      env.mboSequencer.init value)
    (h : ViewTracks (shared.view securityId) entries) :
    ViewTracks ⟨sd.securities securityId, (shared.view securityId).records⟩ entries := by
  subst hsd
  cases define_securities env.discardSymbol env.mbpSequencer.init env.mboSequencer.init
      shared.securityDefinitions value securityId with
  | inl he => rw [he]; exact h
  | inr he =>
    obtain ⟨hnone, exchange, symbol, factor, discard, he⟩ := he
    have hv : (shared.view securityId).security = none := hnone
    simp only [ViewTracks, hv] at h
    rw [he]
    simp only [ViewTracks, h.1, h.2]
    exact tracks_fresh _ _ _ _ _ _

theorem getSecurity_none {sd : SecurityDefinitions Qp Qo} {securityId : Int}
    (h : sd.securities securityId = none) : (sd.getSecurity securityId).isSome = false := by
  simp [SecurityDefinitions.getSecurity, h]

def ReportsInRange (d : Delivery) : Prop :=
  match d with
  | .incremental _ _ _ message => ∀ r ∈ reportsOf message, r.2 < 2 ^ 32 - 1
  | _ => True

theorem onMessage_tracks (env : Env Qp Qo) (channelId streamId : Nat) (frame : Frame)
    (message : Message) (securityId : Int) (h0 : securityId ≠ 0) (f : Feeds Qp Qo)
    (entries : List Seen) (h : ViewTracks (f.shared.view securityId) entries)
    (hr : ReportsInRange (.incremental channelId streamId frame message)) :
    ViewTracks ((f.step env (.incremental channelId streamId frame message)).shared.view securityId)
      (entries ++ seenIn securityId f (.incremental channelId streamId frame message)) := by
  have hcalls := react_reports env.options f.shared.securityDefinitions (f.caches channelId)
    f.shared.pending message (reportOf_observer securityId)
  rw [expected_reportOf, filter_checkedOf message h0] at hcalls
  -- the view from which the calls start
  have hstart : ViewTracks ⟨(definitionsAfter env f.shared.securityDefinitions message).securities
      securityId, (f.shared.view securityId).records⟩ entries := by
    unfold definitionsAfter
    split
    · split
      · exact h.define env _ securityId f.shared _ entries rfl
      · exact h
    · exact h
  have hnone : (definitionsAfter env f.shared.securityDefinitions message).securities securityId =
      none → f.shared.securityDefinitions.securities securityId = none := by
    unfold definitionsAfter
    split
    · next value =>
      split
      · intro hn
        cases define_securities env.discardSymbol env.mbpSequencer.init env.mboSequencer.init
            f.shared.securityDefinitions value securityId with
        | inl he => rw [← he]; exact hn
        | inr he => exact he.1
      · exact id
    · exact id
  let r := react env.options f.shared.securityDefinitions (f.caches channelId) f.shared.pending
    message
  have hperf := ViewTracks.performAll env ⟨streamId, frame, r.exchangeTimeUtc⟩ r.calls securityId
    { f.shared with
      securityDefinitions := definitionsAfter env f.shared.securityDefinitions message
      pending := r.pending, fault := f.shared.fault || r.fault } entries hstart
  have hrange : ∀ x ∈ r.calls.flatMap (reportOf securityId), x < 2 ^ 32 - 1 := by
    intro x hx
    rw [hcalls] at hx
    split at hx
    · obtain ⟨y, hy, rfl⟩ := List.mem_map.1 hx
      exact hr y (List.mem_filter.1 hy).1
    · cases hx
  have hres := hperf hrange (by
    intro hn
    rw [hcalls, getSecurity_none (hnone hn)]
    rfl)
  have hseen : (r.calls.flatMap (reportOf securityId)).map (fun x => (⟨streamId, frame, x⟩ : Seen)) =
      seenIn securityId f (.incremental channelId streamId frame message) := by
    rw [hcalls]
    simp only [seenIn]
    split
    · rw [List.map_map]
      rfl
    · rfl
  rw [hseen] at hres
  exact hres

/-- An operation of a recovery feed. -/
theorem ViewTracks.recover (securityId other : Int) (site : Site) (op : SecurityOp Qp Qo)
    (shared : Shared Qp Qo) (entries : List Seen) (hsite : site ≠ .checkReportSequence)
    (hop : ∀ s, SameInstrument s (op s).1 ∧ (op s).1.rptSeq = s.rptSeq)
    (h : ViewTracks (shared.view securityId) entries) :
    ViewTracks ((shared.onSecurity other site op).view securityId) entries := by
  by_cases he : other = securityId
  · subst he
    rw [view_onSecurity_self]
    cases hs : (shared.view other).security with
    | none => simpa only [View.apply, hs] using h
    | some s =>
      simp only [ViewTracks, hs] at h
      have hchecks : checksIn [⟨other, site, (op s).2⟩] = [] := by
        simp [checksIn, hsite]
      simp only [View.apply, hs, ViewTracks, checksIn_append, hchecks, List.append_nil]
      exact h.keep (hop s).1 (hop s).2
  · rw [view_onSecurity_ne shared site op he]
    exact h

theorem step_tracks (env : Env Qp Qo) (d : Delivery) (securityId : Int) (h0 : securityId ≠ 0)
    (f : Feeds Qp Qo) (entries : List Seen) (h : ViewTracks (f.shared.view securityId) entries)
    (hr : ReportsInRange d) :
    ViewTracks ((f.step env d).shared.view securityId) (entries ++ seenIn securityId f d) := by
  cases d with
  | incremental channelId streamId frame message =>
    exact onMessage_tracks env channelId streamId frame message securityId h0 f entries h hr
  | sequenceReset channelId => simpa only [Feeds.step, seenIn, List.append_nil] using h
  | instrumentDefinition streamId frame message =>
    simp only [Feeds.step, seenIn, List.append_nil, InstrumentDefinition.onMessage]
    split
    · next value =>
      split
      · exact h
      · have hd := h.define env value securityId f.shared _ entries rfl
        have hp := ViewTracks.performAll env ⟨streamId, frame, 0⟩
          [⟨value.securityID, .referenceData value⟩] securityId
          { f.shared with
            securityDefinitions := f.shared.securityDefinitions.define env.discardSymbol
              env.mbpSequencer.init env.mboSequencer.init value } entries hd
          (by intro r hx; cases hx) (fun _ => rfl)
        simpa [reportOf] using hp
    · exact h
  | mbpRecovery streamId frame sequence message =>
    simp only [Feeds.step, seenIn, List.append_nil, MBPMarketRecovery.onMessage]
    split
    all_goals
      first
      | exact h
      | split
        · exact h.recover securityId _ _ _ f.shared entries (by decide)
            (MBPMarketRecovery.snapshotFullRefresh_same env _ sequence _)
        · exact h
  | mbofdRecovery streamId sequence message =>
    simp only [Feeds.step, seenIn, List.append_nil, MBOFDMarketRecovery.onMessage]
    split
    · split
      · exact h.recover securityId _ _ _ f.shared entries (by decide)
          (MBOFDMarketRecovery.snapshotFullRefreshOrderBook53_same env streamId sequence _)
      · exact h
    · exact h

theorem run_tracks (env : Env Qp Qo) (deliveries : List Delivery) (securityId : Int)
    (h0 : securityId ≠ 0) (f : Feeds Qp Qo) (entries : List Seen)
    (h : ViewTracks (f.shared.view securityId) entries)
    (hr : ∀ d ∈ deliveries, ReportsInRange d) :
    ViewTracks ((Feeds.run env deliveries f).shared.view securityId)
      (entries ++ seen env securityId deliveries f) := by
  induction deliveries generalizing f entries with
  | nil => simpa [seen, Feeds.run] using h
  | cons d deliveries ih =>
    have hstep := step_tracks env d securityId h0 f entries h (hr d (by simp))
    have hrest := ih (f.step env d) _ hstep (fun d' hd' => hr d' (List.mem_cons_of_mem d hd'))
    rw [List.append_assoc] at hrest
    exact hrest

/-- The marks by which a gap check shows: counting a report, or a stale book. -/
def Reporting : Effect → Prop
  | .updateRptSeq _ _ => True
  | .publish (.marketByPrice _ _ _ updateType) => updateType = .stale
  | .publish (.marketByOrder _ _ updateType) => updateType = .stale
  | _ => False

theorem Echo.not_reporting {book : Book} {e : Effect} (h : Echo book e) : ¬ Reporting e := by
  cases h with
  | price _ _ _ _ hs => exact hs
  | order _ _ _ hs => exact hs
  | mark => exact id
  | clear => exact id

theorem Action.op_not_reporting (env : Env Qp Qo) (ctx : Context) (a : Action)
    (h : ∀ r, a ≠ .checkReportSequence r) (s : Security Qp Qo) :
    ∀ e ∈ (a.op env ctx s).2, ¬ Reporting e := by
  intro e he
  cases a with
  | checkReportSequence r => exact absurd rfl (h r)
  | topOfBook | tradeSummary | statistics | marketStatus =>
    rw [List.mem_singleton.1 he]
    exact id
  | referenceData value =>
    cases List.mem_cons.1 he with
    | inl he => rw [he]; exact id
    | inr he =>
      split at he
      · cases he
      · rw [List.mem_singleton.1 he]
        exact id
  | dispatchMarketByPrice bids asks isSnapshot =>
    obtain ⟨levels, n, mode, rfl⟩ | he := dispatchMarketByPrice_effects env ctx _ _ _ s e he
    · exact id
    · exact he.not_reporting
  | dispatchMarketByOrder | dispatchOrderBook47 =>
    obtain ⟨orders, n, mode, rfl⟩ | he := dispatchMarketByOrder_effects env ctx _ _ s e he
    · exact id
    · exact he.not_reporting

theorem MBPMarketRecovery.not_reporting (env : Env Qp Qo) (ctx : Context) (sequence : Sequence)
    (value : Snapshot52) (s : Security Qp Qo) :
    ∀ e ∈ (snapshotFullRefresh env ctx sequence value s).2, ¬ Reporting e := by
  intro e he
  obtain ⟨-, ⟨levels, rfl⟩ | he⟩ := snapshotFullRefresh_effects env ctx sequence value s e he
  · exact id
  · exact he.not_reporting

theorem MBOFDMarketRecovery.not_reporting (env : Env Qp Qo) (streamId : Nat) (sequence : Sequence)
    (value : Snapshot53) (s : Security Qp Qo) :
    ∀ e ∈ (snapshotFullRefreshOrderBook53 env streamId sequence value s).2, ¬ Reporting e := by
  intro e he
  obtain ⟨-, ⟨orders, rfl⟩ | he⟩ :=
    snapshotFullRefreshOrderBook53_effects env streamId sequence value s e he
  · exact id
  · exact he.not_reporting

/-- Only `check_report_sequence` counts reports and publishes stale books. -/
theorem step_not_reporting (env : Env Qp Qo) (d : Delivery) (f : Feeds Qp Qo) (r : Record)
    (hr : r ∈ (f.step env d).shared.trace) :
    r ∈ f.shared.trace ∨ (r.site ≠ .checkReportSequence → ∀ e ∈ r.effects, ¬ Reporting e) := by
  have hop : ∀ securityId site (op : SecurityOp Qp Qo),
      r ∈ (f.shared.onSecurity securityId site op).trace →
      (∀ s, ∀ e ∈ (op s).2, ¬ Reporting e) →
      r ∈ f.shared.trace ∨ (r.site ≠ .checkReportSequence → ∀ e ∈ r.effects, ¬ Reporting e) := by
    intro securityId site op hm hno
    cases mem_trace_onSecurity f.shared securityId site op r hm with
    | inl hm => exact Or.inl hm
    | inr hm =>
      obtain ⟨s, -, rfl⟩ := hm
      exact Or.inr fun _ => hno s
  obtain he | ⟨sd, pending, fault, ctx, calls, -, he⟩ | ⟨ctx, sequence, value, he⟩ |
    ⟨streamId, sequence, value, he⟩ := f.step_cases env d
  · rw [he] at hr
    exact Or.inl hr
  · rw [he] at hr
    cases mem_trace_performAll env ctx calls _ r hr with
    | inl hm => exact Or.inl hm
    | inr hm =>
      obtain ⟨call, -, s, rfl⟩ := hm
      right
      intro hsite
      apply Action.op_not_reporting env ctx call.action
      intro x hx
      rw [hx] at hsite
      exact hsite rfl
  · rw [he] at hr
    exact hop _ _ _ hr (MBPMarketRecovery.not_reporting env ctx sequence value)
  · rw [he] at hr
    exact hop _ _ _ hr (MBOFDMarketRecovery.not_reporting env streamId sequence value)

theorem run_not_reporting (env : Env Qp Qo) (deliveries : List Delivery) (f : Feeds Qp Qo)
    (h : ∀ r ∈ f.shared.trace, r.site ≠ .checkReportSequence → ∀ e ∈ r.effects, ¬ Reporting e) :
    ∀ r ∈ (Feeds.run env deliveries f).shared.trace, r.site ≠ .checkReportSequence →
      ∀ e ∈ r.effects, ¬ Reporting e := by
  induction deliveries generalizing f with
  | nil => exact h
  | cons d deliveries ih =>
    apply ih (f.step env d)
    intro r hr
    cases step_not_reporting env d f r hr with
    | inl hr => exact h r hr
    | inr hr => exact hr

theorem previousReport_consecutive (entries : List Seen)
    (h : ∀ k e, entries[k]? = some e → e.rptSeq = k + 1) :
    previousReport entries = entries.length := by
  induction entries using List.reverseRecOn with
  | nil => rfl
  | append_singleton entries e ih =>
    have he := h entries.length e List.getElem?_concat_length
    rw [previousReport_concat, if_neg (by omega), he, List.length_append]
    rfl

/-- Numbers that count up from 1 leave no gap before any of them. -/
theorem not_isGap_of_consecutive {entries : List Seen}
    (h : ∀ k e, entries[k]? = some e → e.rptSeq = k + 1) {k : Nat} {e : Seen}
    (he : entries[k]? = some e) : ¬ IsGap (entries.take k) e := by
  have hk : k < entries.length := (List.getElem?_eq_some_iff.1 he).1
  have hprev : previousReport (entries.take k) = k := by
    rw [previousReport_consecutive (entries.take k), List.length_take]
    · omega
    · intro j e hj
      rw [List.getElem?_take] at hj
      split at hj
      · exact h j e hj
      · cases hj
  intro hg
  exact hg.2 (by rw [hprev]; exact h k e he)

theorem ViewTracks.start {f : Feeds Qp Qo} {securityId : Int} (ht : f.shared.trace = [])
    (hf : ∀ s, f.shared.securityDefinitions.securities securityId = some s → s.rptSeq = 0) :
    ViewTracks (f.shared.view securityId) [] := by
  unfold ViewTracks
  have hrec : checksIn (f.shared.view securityId).records = [] := by
    simp [Shared.view, ht, checksIn]
  split
  · exact ⟨rfl, hrec⟩
  · next s hs =>
    rw [hrec]
    exact ⟨hf s hs, fun e he => (by cases he), rfl, fun k e he => (by simp at he)⟩

theorem ViewTracks.length {v : View Qp Qo} {entries : List Seen} (h : ViewTracks v entries) :
    (checksIn v.records).length = entries.length := by
  unfold ViewTracks at h
  split at h
  · rw [h.1, h.2]
    rfl
  · exact Tracks.length h

theorem ViewTracks.effects {v : View Qp Qo} {entries : List Seen} (h : ViewTracks v entries)
    {k : Nat} {e : Seen} (he : entries[k]? = some e) :
    ∃ s, v.security = some s ∧
      (checksIn v.records)[k]? = some (expectedEffects s (entries.take k) e) := by
  unfold ViewTracks at h
  split at h
  · rw [h.1] at he
    simp at he
  · next s hs => exact ⟨s, hs, Tracks.effects h k e he⟩

/-- Gap detection over every run of all feeds and channels: the checks of a security are those
of its entries in order, each finds a gap exactly when the history has one, and nothing else
counts reports or publishes stale books. Numbers `1, 2, 3, ...` never raise a gap. -/
theorem report_gap_detection_exact (env : Env Qp Qo) (deliveries : List Delivery)
    (f : Feeds Qp Qo) (securityId : Int) (h0 : securityId ≠ 0) (ht : f.shared.trace = [])
    (hf : ∀ s, f.shared.securityDefinitions.securities securityId = some s → s.rptSeq = 0)
    (hr : ∀ d ∈ deliveries, ReportsInRange d) :
    let g := Feeds.run env deliveries f
    let entries := seen env securityId deliveries f
    let checks := checksIn (g.shared.trace.filter fun r => r.securityId = securityId)
    checks.length = entries.length ∧
      (∀ k e, entries[k]? = some e → ∃ s, g.shared.securityDefinitions.securities securityId = some s ∧
        checks[k]? = some (if IsGap (entries.take k) e then gapEffects s e
          else [.updateRptSeq e.rptSeq false])) ∧
      (∀ r ∈ g.shared.trace, r.site ≠ .checkReportSequence → ∀ x ∈ r.effects, ¬ Reporting x) ∧
      ((∀ k e, entries[k]? = some e → e.rptSeq = k + 1) →
        ∀ effects ∈ checks, ∃ r, effects = [.updateRptSeq r false]) := by
  intro g entries checks
  have hrun : ViewTracks (g.shared.view securityId) entries :=
    run_tracks env deliveries securityId h0 f [] (ViewTracks.start ht hf) hr
  refine ⟨hrun.length, fun k e => hrun.effects, ?_, ?_⟩
  · apply run_not_reporting
    rw [ht]
    intro r hm
    cases hm
  · intro hseq effects hm
    obtain ⟨k, hk, rfl⟩ := List.getElem_of_mem hm
    have hek : entries[k]? = some (entries.get ⟨k, hrun.length ▸ hk⟩) :=
      List.getElem?_eq_getElem _
    obtain ⟨s, -, hc⟩ := hrun.effects hek
    have hchecks : checks[k]? = some checks[k] := List.getElem?_eq_getElem hk
    rw [expectedEffects, if_neg (not_isGap_of_consecutive hseq hek)] at hc
    exact ⟨_, Option.some.inj (hchecks.symm.trans hc)⟩

/-- Report 1 in a limits message and report 3 in a volume message: the second one is a gap. -/
theorem report_gap_detection_skipped_number :
    let env := Env.direct {}
    let f := Feeds.ofSecDefs env [SecDef.sample 7 "ESZ5"]
    let deliveries : List Delivery :=
      [.incremental 310 1 ⟨10, 0⟩ (.limitsBanding50 [⟨7, 1⟩]),
        .incremental 310 1 ⟨11, 0⟩ (.volumeLongQty66 [⟨7, 3⟩])]
    let checks := checksIn ((Feeds.run env deliveries f).shared.trace.filter fun r =>
      r.securityId = 7)
    checks.length = 2 ∧ IsGap [⟨1, ⟨10, 0⟩, 1⟩] ⟨1, ⟨11, 0⟩, 3⟩ ∧
      ∃ s : Security (Option Nat) (Option Nat),
        checks[1]? = some (gapEffects s ⟨1, ⟨11, 0⟩, 3⟩) := by
  intro env f deliveries checks
  have hgap : IsGap [⟨1, ⟨10, 0⟩, 1⟩] ⟨1, ⟨11, 0⟩, 3⟩ := by decide
  have hseen : seen env 7 deliveries f = [⟨1, ⟨10, 0⟩, 1⟩, ⟨1, ⟨11, 0⟩, 3⟩] := by decide +kernel
  obtain ⟨hlen, hchecks, -⟩ := report_gap_detection_exact env deliveries f 7 (by decide) rfl
    (fun s hs => by
      obtain ⟨_, _, _, _, rfl⟩ := load_securities _ _ _ _ _ s hs
      rfl) (by
      intro d hd
      simp only [deliveries, List.mem_cons, List.not_mem_nil, or_false] at hd
      obtain rfl | rfl := hd
      · simp [ReportsInRange, reportsOf]
      · simp [ReportsInRange, reportsOf])
  rw [hseen] at hlen hchecks
  obtain ⟨s, -, hc⟩ := hchecks 1 _ rfl
  rw [List.take_succ_cons, List.take_zero, if_pos hgap] at hc
  exact ⟨hlen, hgap, s, hc⟩

end RoqCme.MarketData
