import RoqCme.MarketData.DefinitionTable
import RoqCme.MarketData.Feeds
import RoqCme.MarketData.Operations

/-! The part of the shared state that concerns one security: calls for other securities do
not change it. -/
namespace RoqCme.MarketData
open RoqCme.Mdp RoqCme.Tools
variable {Qp Qo : Type}

structure View (Qp Qo : Type) where
  security : Option (Security Qp Qo)
  records : List Record

def Shared.view (shared : Shared Qp Qo) (securityId : Int) : View Qp Qo :=
  { security := shared.securityDefinitions.securities securityId
    records := shared.trace.filter fun r => r.securityId = securityId }

def View.apply (v : View Qp Qo) (securityId : Int) (site : Site) (op : SecurityOp Qp Qo) :
    View Qp Qo :=
  match v.security with
  | none => v
  | some s => ⟨some (op s).1, v.records ++ [⟨securityId, site, (op s).2⟩]⟩

theorem view_onSecurity_self (shared : Shared Qp Qo) (securityId : Int) (site : Site)
    (op : SecurityOp Qp Qo) :
    (shared.onSecurity securityId site op).view securityId =
      (shared.view securityId).apply securityId site op := by
  cases hs : shared.securityDefinitions.securities securityId with
  | none => simp [Shared.onSecurity, View.apply, Shared.view, hs]
  | some s =>
    simp [Shared.onSecurity, View.apply, Shared.view, hs, SecurityDefinitions.setSecurity]

theorem view_onSecurity_ne (shared : Shared Qp Qo) {securityId other : Int} (site : Site)
    (op : SecurityOp Qp Qo) (h : other ≠ securityId) :
    (shared.onSecurity other site op).view securityId = shared.view securityId := by
  cases hs : shared.securityDefinitions.securities other with
  | none => simp [Shared.onSecurity, hs]
  | some s =>
    simp [Shared.onSecurity, Shared.view, hs, SecurityDefinitions.setSecurity, h,
      Function.update_of_ne (Ne.symm h)]

theorem view_perform (env : Env Qp Qo) (ctx : Context) (shared : Shared Qp Qo) (call : Call)
    (securityId : Int) :
    (call.perform env ctx shared).view securityId =
      if call.securityId = securityId then
        (shared.view securityId).apply securityId call.action.site (call.action.op env ctx)
      else shared.view securityId := by
  unfold Call.perform
  split
  · next h =>
    subst h
    exact view_onSecurity_self shared _ _ _
  · next h => exact view_onSecurity_ne shared _ _ h

/-- Calls on a security that does not exist do nothing. -/
theorem view_performAll_none (env : Env Qp Qo) (ctx : Context) (calls : List Call)
    (shared : Shared Qp Qo) (securityId : Int) (h : (shared.view securityId).security = none) :
    (performAll env ctx calls shared).view securityId = shared.view securityId := by
  induction calls generalizing shared with
  | nil => rfl
  | cons call calls ih =>
    have hc : (call.perform env ctx shared).view securityId = shared.view securityId := by
      rw [view_perform]
      split
      · simp only [View.apply, h]
      · rfl
    have hrest := ih (call.perform env ctx shared) (by rw [hc]; exact h)
    rw [hc] at hrest
    exact hrest

/-- The calls to a known security add one record each, from which the action can be read off. -/
theorem performAll_records {δ : Type} (ofRecord : Record → δ) (ofAction : Action → δ)
    (env : Env Qp Qo) (ctx : Context) (calls : List Call) (shared : Shared Qp Qo)
    (securityId : Int) (s : Security Qp Qo) (hs : (shared.view securityId).security = some s)
    (h : ∀ (a : Action) (t : Security Qp Qo),
      ofRecord ⟨securityId, a.site, (a.op env ctx t).2⟩ = ofAction a) :
    ∃ records, ((performAll env ctx calls shared).view securityId).records =
        (shared.view securityId).records ++ records ∧
      records.map ofRecord =
        (calls.filter fun call => call.securityId = securityId).map fun call =>
          ofAction call.action := by
  induction calls generalizing shared s with
  | nil => exact ⟨[], by simp [performAll], rfl⟩
  | cons call calls ih =>
    have hview := view_perform env ctx shared call securityId
    rw [performAll, List.foldl_cons, ← performAll]
    by_cases hid : call.securityId = securityId
    · rw [if_pos hid, View.apply, hs] at hview
      obtain ⟨records, hrecords, hmap⟩ := ih (call.perform env ctx shared)
        (call.action.op env ctx s).1 (by rw [hview])
      refine ⟨⟨securityId, call.action.site, (call.action.op env ctx s).2⟩ :: records, ?_, ?_⟩
      · rw [hrecords, hview, List.append_assoc, List.singleton_append]
      · rw [List.map_cons, hmap, h, List.filter_cons_of_pos (by simpa using hid), List.map_cons]
    · rw [if_neg hid] at hview
      obtain ⟨records, hrecords, hmap⟩ := ih (call.perform env ctx shared) s (by rw [hview, hs])
      refine ⟨records, by rw [hrecords, hview], ?_⟩
      rw [hmap, List.filter_cons_of_neg (by simpa using hid)]

/-- A definition does not touch what is known already. -/
theorem definitionsAfter_known (env : Env Qp Qo) {sd : SecurityDefinitions Qp Qo}
    (message : Message) {securityId : Int} {s : Security Qp Qo}
    (hs : sd.securities securityId = some s) :
    (definitionsAfter env sd message).securities securityId = some s := by
  unfold definitionsAfter
  split
  · next value =>
    split
    · rw [define_securities_eq]
      split
      · rw [hs]
        rfl
      · exact hs
    · exact hs
  · exact hs

/-- Where the records of an operation come from. -/
theorem mem_trace_onSecurity (shared : Shared Qp Qo) (securityId : Int) (site : Site)
    (op : SecurityOp Qp Qo) (r : Record) (h : r ∈ (shared.onSecurity securityId site op).trace) :
    r ∈ shared.trace ∨ ∃ s, shared.securityDefinitions.securities securityId = some s ∧
      r = ⟨securityId, site, (op s).2⟩ := by
  cases hs : shared.securityDefinitions.securities securityId with
  | none =>
    simp only [Shared.onSecurity, hs] at h
    exact Or.inl h
  | some s =>
    simp only [Shared.onSecurity, hs, List.mem_append, List.mem_singleton] at h
    cases h with
    | inl h => exact Or.inl h
    | inr h => exact Or.inr ⟨s, rfl, h⟩

theorem mem_trace_performAll (env : Env Qp Qo) (ctx : Context) (calls : List Call)
    (shared : Shared Qp Qo) (r : Record) (h : r ∈ (performAll env ctx calls shared).trace) :
    r ∈ shared.trace ∨ ∃ call ∈ calls, ∃ s : Security Qp Qo,
      r = ⟨call.securityId, call.action.site, (call.action.op env ctx s).2⟩ := by
  induction calls generalizing shared with
  | nil => exact Or.inl h
  | cons call calls ih =>
    cases ih (call.perform env ctx shared) h with
    | inl h =>
      cases mem_trace_onSecurity shared _ _ _ r h with
      | inl h => exact Or.inl h
      | inr h =>
        obtain ⟨s, -, hr⟩ := h
        exact Or.inr ⟨call, by simp, s, hr⟩
    | inr h =>
      obtain ⟨c, hc, s, hr⟩ := h
      exact Or.inr ⟨c, List.mem_cons_of_mem call hc, s, hr⟩

/-- Every security is still there and has kept its instrument. -/
def Grown (sd sd' : SecurityDefinitions Qp Qo) : Prop :=
  ∀ securityId s, sd.securities securityId = some s →
    ∃ s', sd'.securities securityId = some s' ∧ SameInstrument s s'

theorem Grown.refl (sd : SecurityDefinitions Qp Qo) : Grown sd sd :=
  fun _ s h => ⟨s, h, .refl s⟩

theorem Grown.trans {sd sd' sd'' : SecurityDefinitions Qp Qo} (h : Grown sd sd')
    (h' : Grown sd' sd'') : Grown sd sd'' := by
  intro securityId s hs
  obtain ⟨s', hs', hi⟩ := h securityId s hs
  obtain ⟨s'', hs'', hi'⟩ := h' securityId s' hs'
  exact ⟨s'', hs'', hi.trans hi'⟩

theorem Grown.getSecurity {sd sd' : SecurityDefinitions Qp Qo} (h : Grown sd sd')
    {securityId : Int} {s : Security Qp Qo} (hs : sd.getSecurity securityId = some s) :
    ∃ s', sd'.getSecurity securityId = some s' ∧ SameInstrument s s' ∧ s'.discard = false := by
  obtain ⟨hget, hd⟩ := getSecurity_eq_some.1 hs
  obtain ⟨s', hs', hi⟩ := h securityId s hget
  have hd' := hi.discard.trans hd
  exact ⟨s', getSecurity_eq_some.2 ⟨hs', hd'⟩, hi, hd'⟩

/-- The two indices are untouched. -/
def SameIndex (sd sd' : SecurityDefinitions Qp Qo) : Prop :=
  sd'.marketSegments = sd.marketSegments ∧ sd'.securityGroups = sd.securityGroups

theorem emplaceSecurity_grown (sd : SecurityDefinitions Qp Qo) (securityId : Int)
    (security : Security Qp Qo) : Grown sd (sd.emplaceSecurity securityId security) := by
  intro other s hs
  refine ⟨s, ?_, .refl s⟩
  rw [emplaceSecurity_securities]
  by_cases he : other = securityId
  · subst he
    rw [if_pos rfl, hs]
    rfl
  · rw [if_neg he]
    exact hs

theorem emplaceSecurity_sameIndex (sd : SecurityDefinitions Qp Qo) (securityId : Int)
    (security : Security Qp Qo) : SameIndex sd (sd.emplaceSecurity securityId security) := by
  unfold SecurityDefinitions.emplaceSecurity
  split
  · exact ⟨rfl, rfl⟩
  · exact ⟨rfl, rfl⟩

theorem define_grown (discardSymbol : String → Bool) (mbp : Qp) (mbo : Qo)
    (sd : SecurityDefinitions Qp Qo) (value : InstrumentDefinition) :
    Grown sd (sd.define discardSymbol mbp mbo value) := by
  intro securityId s hs
  cases define_securities discardSymbol mbp mbo sd value securityId with
  | inl he => exact ⟨s, by rw [he]; exact hs, .refl s⟩
  | inr he =>
    rw [hs] at he
    cases he.1

theorem onSecurity_grown (shared : Shared Qp Qo) (securityId : Int) (site : Site)
    (op : SecurityOp Qp Qo) (hop : ∀ s, SameInstrument s (op s).1) :
    Grown shared.securityDefinitions (shared.onSecurity securityId site op).securityDefinitions ∧
      SameIndex shared.securityDefinitions
        (shared.onSecurity securityId site op).securityDefinitions := by
  unfold Shared.onSecurity
  split
  · exact ⟨.refl _, rfl, rfl⟩
  · next t ht =>
    refine ⟨?_, rfl, rfl⟩
    intro other s hs
    simp only [SecurityDefinitions.setSecurity]
    by_cases he : other = securityId
    · subst he
      rw [ht] at hs
      cases hs
      exact ⟨_, Function.update_self _ _ _, hop t⟩
    · exact ⟨s, by rw [Function.update_of_ne he]; exact hs, .refl s⟩

theorem performAll_grown (env : Env Qp Qo) (ctx : Context) (calls : List Call)
    (shared : Shared Qp Qo) :
    Grown shared.securityDefinitions (performAll env ctx calls shared).securityDefinitions ∧
      SameIndex shared.securityDefinitions
        (performAll env ctx calls shared).securityDefinitions := by
  induction calls generalizing shared with
  | nil => exact ⟨.refl _, rfl, rfl⟩
  | cons call calls ih =>
    obtain ⟨hg, hi⟩ := onSecurity_grown shared call.securityId call.action.site
      (call.action.op env ctx) (fun s => (Action.op_same env ctx call.action s).1)
    obtain ⟨hg', hi'⟩ := ih (call.perform env ctx shared)
    exact ⟨hg.trans hg', hi'.1.trans hi.1, hi'.2.trans hi.2⟩

/-- What a delivery does to the table: a possible definition, and then operations that keep the
instruments and both indices. -/
theorem Feeds.step_table (env : Env Qp Qo) (f : Feeds Qp Qo) (d : Delivery) :
    ∃ sd, (sd = f.shared.securityDefinitions ∨
        ∃ value, sd = f.shared.securityDefinitions.define env.discardSymbol env.mbpSequencer.init
          env.mboSequencer.init value) ∧
      Grown sd (f.step env d).shared.securityDefinitions ∧
      SameIndex sd (f.step env d).shared.securityDefinitions := by
  obtain he | ⟨sd, pending, fault, ctx, calls, hsd, he⟩ | ⟨ctx, sequence, value, he⟩ |
    ⟨streamId, sequence, value, he⟩ := f.step_cases env d
  · refine ⟨_, Or.inl rfl, ?_⟩
    rw [he]
    exact ⟨.refl _, rfl, rfl⟩
  · refine ⟨sd, hsd, ?_⟩
    rw [he]
    exact performAll_grown env ctx calls
      { f.shared with securityDefinitions := sd, pending := pending, fault := fault }
  · refine ⟨_, Or.inl rfl, ?_⟩
    rw [he]
    exact onSecurity_grown _ _ _ _ fun s =>
      (MBPMarketRecovery.snapshotFullRefresh_same env ctx sequence value s).1
  · refine ⟨_, Or.inl rfl, ?_⟩
    rw [he]
    exact onSecurity_grown _ _ _ _ fun s =>
      (MBOFDMarketRecovery.snapshotFullRefreshOrderBook53_same env streamId sequence value s).1

/-- No delivery of any feed loses a security or changes its instrument. -/
theorem step_grown (env : Env Qp Qo) (f : Feeds Qp Qo) (d : Delivery) :
    Grown f.shared.securityDefinitions (f.step env d).shared.securityDefinitions := by
  obtain ⟨sd, rfl | ⟨value, rfl⟩, hg, -⟩ := f.step_table env d
  · exact hg
  · exact (define_grown _ _ _ _ value).trans hg

theorem run_grown (env : Env Qp Qo) (deliveries : List Delivery) (f : Feeds Qp Qo) :
    Grown f.shared.securityDefinitions (Feeds.run env deliveries f).shared.securityDefinitions := by
  induction deliveries generalizing f with
  | nil => exact .refl _
  | cons d deliveries ih => exact (step_grown env f d).trans (ih (f.step env d))

end RoqCme.MarketData
