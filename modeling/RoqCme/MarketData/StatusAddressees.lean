import RoqCme.MarketData.Views
import RoqCme.MarketData.DefinitionTable
import Mathlib.Data.List.Induction

/-! Who gets the trading status of template 30. A message names a security or a group of securities;
the handler takes both names at their word, one after the other. -/
namespace RoqCme.MarketData
open RoqCme.Mdp RoqCme.Tools
variable {Qp Qo : Type}

/-- What was published as market status, with the security. -/
def marketStatuses (trace : List Record) : List (Int × Published) :=
  trace.flatMap fun record => record.effects.filterMap fun
    | .publish (.marketStatus header tradingStatus) =>
      some (record.securityId, .marketStatus header tradingStatus)
    | _ => none

/-- A known member of the group that the message names; without a name there is no group. -/
def KnownMember (sd : SecurityDefinitions Qp Qo) (value : SecurityStatus30) (securityId : Int) :
    Prop :=
  value.securityGroup ≠ "" ∧ securityId ∈ sd.getSecurityGroup value.securityGroup ∧
    (sd.getSecurity securityId).isSome

/-- The security that the message names, or the known members of its group if it names none. -/
def Addressee (sd : SecurityDefinitions Qp Qo) (value : SecurityStatus30) (securityId : Int) :
    Prop :=
  match value.securityID with
  | some named => securityId = named ∧ (sd.getSecurity securityId).isSome
  | none => KnownMember sd value securityId

/-- The status was published once for every addressee and for nobody else. -/
def Reaches (sd : SecurityDefinitions Qp Qo) (ctx : Context) (value : SecurityStatus30)
    (before after : List Record) : Prop :=
  ∃ new, marketStatuses after = marketStatuses before ++ new ∧ (new.map Prod.fst).Nodup ∧
    (∀ securityId, securityId ∈ new.map Prod.fst ↔ Addressee sd value securityId) ∧
    ∀ p ∈ new, ∃ security, sd.getSecurity p.1 = some security ∧
      p.2 = .marketStatus (ctx.header security) value.securityTradingStatus.map

/-- The securities for which the handler publishes, in order. -/
def statusIds (sd : SecurityDefinitions Qp Qo) (value : SecurityStatus30) : List Int :=
  let known := fun securityId : Int => (sd.getSecurity securityId).isSome
  (if getInt value.securityID ≠ 0 then [getInt value.securityID].filter known else []) ++
    if value.securityGroup ≠ "" then (sd.getSecurityGroup value.securityGroup).filter known else []

theorem flatMap_known (sd : SecurityDefinitions Qp Qo) (action : Action) (ids : List Int) :
    (ids.flatMap fun securityId =>
      match sd.getSecurity securityId with
      | some _ => [(⟨securityId, action⟩ : Call)]
      | none => []) = (ids.filter fun securityId => (sd.getSecurity securityId).isSome).map
        fun securityId => ⟨securityId, action⟩ := by
  induction ids with
  | nil => rfl
  | cons securityId ids ih =>
    rw [List.flatMap_cons, ih]
    cases h : sd.getSecurity securityId with
    | none => simp [h]
    | some security => simp [h]

theorem securityStatus30_calls_eq (sd : SecurityDefinitions Qp Qo) (cache : Cache)
    (pending : PendingSummary) (value : SecurityStatus30) :
    (securityStatus30 sd cache pending value).calls = (statusIds sd value).map fun securityId =>
      ⟨securityId, .marketStatus value.securityTradingStatus.map⟩ := by
  have hnamed := flatMap_known sd (.marketStatus value.securityTradingStatus.map)
    [getInt value.securityID]
  have hgroup := flatMap_known sd (.marketStatus value.securityTradingStatus.map)
    (sd.getSecurityGroup value.securityGroup)
  rw [List.flatMap_singleton] at hnamed
  simp only [securityStatus30, statusIds, List.map_append]
  congr 1
  · split
    · exact hnamed
    · rfl
  · split
    · exact hgroup
    · rfl

/-- A status for securities that are known changes nothing but the trace. -/
theorem performAll_marketStatus (env : Env Qp Qo) (ctx : Context) (status : TradingStatus)
    (ids : List Int) (shared : Shared Qp Qo)
    (h : ∀ i ∈ ids, (shared.securityDefinitions.getSecurity i).isSome) :
    marketStatuses (performAll env ctx (ids.map fun i => ⟨i, .marketStatus status⟩) shared).trace =
      marketStatuses shared.trace ++ ids.filterMap fun i =>
        (shared.securityDefinitions.getSecurity i).map fun security =>
          (i, .marketStatus (ctx.header security) status) := by
  induction ids generalizing shared with
  | nil => simp [performAll]
  | cons i ids ih =>
    obtain ⟨security, hs⟩ := Option.isSome_iff_exists.1 (h i (by simp))
    have hknown := (getSecurity_eq_some.1 hs).1
    have hstep : Call.perform env ctx shared ⟨i, .marketStatus status⟩ = { shared with
        trace := shared.trace ++
          [⟨i, .marketStatus, [.publish (.marketStatus (ctx.header security) status)]⟩] } := by
      simp only [Call.perform, Shared.onSecurity, hknown, Action.op, publishOp, Action.site,
        setSecurity_self hknown]
    rw [List.map_cons, performAll, List.foldl_cons, hstep]
    have hrest := ih { shared with
      trace := shared.trace ++
        [⟨i, .marketStatus, [.publish (.marketStatus (ctx.header security) status)]⟩] }
      (fun j hj => h j (List.mem_cons_of_mem i hj))
    rw [performAll] at hrest
    rw [hrest]
    simp [marketStatuses, hs]

theorem mem_statusIds (sd : SecurityDefinitions Qp Qo) (value : SecurityStatus30) (i : Int) :
    i ∈ statusIds sd value ↔
      (getInt value.securityID ≠ 0 ∧ i = getInt value.securityID ∧ (sd.getSecurity i).isSome) ∨
        KnownMember sd value i := by
  simp only [statusIds, KnownMember, List.mem_append]
  refine or_congr ?_ ?_
  · split
    · next h => simp [h]
    · next h => simp [h]
  · split
    · next h => simp [h]
    · next h => simp [h]

theorem isSome_of_mem_statusIds {sd : SecurityDefinitions Qp Qo} {value : SecurityStatus30}
    {i : Int} (h : i ∈ statusIds sd value) : (sd.getSecurity i).isSome := by
  rw [mem_statusIds] at h
  obtain h | h := h
  · exact h.2.2
  · exact h.2.2

theorem map_fst_filterMap_known {α : Type} (sd : SecurityDefinitions Qp Qo)
    (f : Security Qp Qo → α) (ids : List Int) (h : ∀ i ∈ ids, (sd.getSecurity i).isSome) :
    (ids.filterMap fun i => (sd.getSecurity i).map fun security => (i, f security)).map Prod.fst =
      ids := by
  induction ids with
  | nil => rfl
  | cons i ids ih =>
    obtain ⟨security, hs⟩ := Option.isSome_iff_exists.1 (h i (by simp))
    have hrest := ih fun j hj => h j (List.mem_cons_of_mem i hj)
    simp [hs, hrest]

/-- What the handler publishes, in terms of its list of securities. -/
theorem reaches_iff (env : Env Qp Qo) (streamId : Nat) (frame : Frame)
    (st : Cache × Shared Qp Qo) (value : SecurityStatus30) :
    Reaches st.2.securityDefinitions ⟨streamId, frame, value.transactTime⟩ value st.2.trace
        (Incremental.onMessage env streamId frame st (.securityStatus30 value)).2.trace ↔
      (statusIds st.2.securityDefinitions value).Nodup ∧
        ∀ i, i ∈ statusIds st.2.securityDefinitions value ↔
          Addressee st.2.securityDefinitions value i := by
  let sd := st.2.securityDefinitions
  let ctx : Context := ⟨streamId, frame, value.transactTime⟩
  let new := (statusIds sd value).filterMap fun i => (sd.getSecurity i).map fun security =>
    ((i, .marketStatus (ctx.header security) value.securityTradingStatus.map) : Int × Published)
  have hafter : marketStatuses
      (Incremental.onMessage env streamId frame st (.securityStatus30 value)).2.trace =
        marketStatuses st.2.trace ++ new := by
    simp only [Incremental.onMessage, react, securityStatus30_calls_eq]
    exact performAll_marketStatus env ctx _ _ _ fun i hi => isSome_of_mem_statusIds hi
  have hids : new.map Prod.fst = statusIds sd value :=
    map_fst_filterMap_known sd _ _ fun i hi => isSome_of_mem_statusIds hi
  have hcontent : ∀ p ∈ new, ∃ security, sd.getSecurity p.1 = some security ∧
      p.2 = .marketStatus (ctx.header security) value.securityTradingStatus.map := by
    intro p hp
    obtain ⟨i, -, hp⟩ := List.mem_filterMap.1 hp
    obtain ⟨security, hs, rfl⟩ := Option.map_eq_some_iff.1 hp
    exact ⟨security, hs, rfl⟩
  rw [Reaches, hafter]
  constructor
  · rintro ⟨other, hsame, hnodup, hmem, -⟩
    rw [← List.append_cancel_left hsame, hids] at hnodup hmem
    exact ⟨hnodup, hmem⟩
  · rintro ⟨hnodup, hmem⟩
    exact ⟨new, rfl, by rw [hids]; exact hnodup, by rw [hids]; exact hmem, hcontent⟩

/-- `security_groups_` holds sets. -/
def SetGroups (sd : SecurityDefinitions Qp Qo) : Prop := ∀ group, (sd.getSecurityGroup group).Nodup

theorem SetGroups.insertGroup {sd : SecurityDefinitions Qp Qo} (h : SetGroups sd) (group : String)
    (securityId : Int) : SetGroups (sd.insertGroup group securityId) := by
  intro other
  unfold SecurityDefinitions.insertGroup SecurityDefinitions.getSecurityGroup
  split
  · exact h other
  · next hnew =>
    by_cases hg : other = group
    · subst hg
      simp only [Function.update_self]
      refine List.nodup_append.2 ⟨h other, List.nodup_singleton _, ?_⟩
      intro i hi j hj
      rw [List.mem_singleton.1 hj]
      intro he
      exact hnew (he ▸ hi)
    · simp only [Function.update_of_ne hg]
      exact h other

theorem SetGroups.emplaceSymbol {sd : SecurityDefinitions Qp Qo} (h : SetGroups sd) (segment : Nat)
    (symbol : String) (securityId : Int) :
    SetGroups (sd.emplaceSymbol segment symbol securityId) := by
  intro group
  rw [emplaceSymbol_group]
  exact h group

theorem SetGroups.emplaceSecurity {sd : SecurityDefinitions Qp Qo} (h : SetGroups sd)
    (securityId : Int) (security : Security Qp Qo) :
    SetGroups (sd.emplaceSecurity securityId security) := by
  intro group
  rw [emplaceSecurity_group]
  exact h group

theorem SetGroups.define {sd : SecurityDefinitions Qp Qo} (h : SetGroups sd)
    (discardSymbol : String → Bool) (mbp : Qp) (mbo : Qo) (value : InstrumentDefinition) :
    SetGroups (sd.define discardSymbol mbp mbo value) := by
  unfold SecurityDefinitions.define
  split
  · exact h
  · rw [createSecurity_eq]
    split
    · exact h.emplaceSecurity _ _
    · exact ((h.emplaceSecurity _ _).insertGroup _ _).emplaceSymbol _ _ _

theorem load_setGroups (discardSymbol : String → Bool) (mbp : Qp) (mbo : Qo)
    (items : List SecDef) : SetGroups (SecurityDefinitions.load discardSymbol mbp mbo items) := by
  have hfold : ∀ (items : List SecDef) (sd : SecurityDefinitions Qp Qo), SetGroups sd →
      SetGroups (items.foldl (SecurityDefinitions.onSecDef discardSymbol mbp mbo) sd) := by
    intro items
    induction items with
    | nil =>
      intro sd h
      exact h
    | cons item items ih =>
      intro sd h
      apply ih
      simp only [SecurityDefinitions.onSecDef]
      split
      · exact h
      · exact ((h.emplaceSecurity _ _).insertGroup _ _).emplaceSymbol _ _ _
  exact hfold items {} fun _ => List.nodup_nil

/-- Every table that a run reaches has sets for its groups. -/
theorem run_setGroups (env : Env Qp Qo) (items : List SecDef) (deliveries : List Delivery) :
    SetGroups (Feeds.run env deliveries (Feeds.ofSecDefs env items)).shared.securityDefinitions := by
  induction deliveries using List.reverseRecOn with
  | nil => exact load_setGroups _ _ _ items
  | append_singleton deliveries d ih =>
    rw [Feeds.run_append]
    obtain ⟨sd, hsd, -, -, hgroups⟩ :=
      (Feeds.run env deliveries (Feeds.ofSecDefs env items)).step_table env d
    have hset : SetGroups sd := by
      obtain rfl | ⟨value, rfl⟩ := hsd
      · exact ih
      · exact ih.define _ _ _ value
    have hnext : ∀ next : SecurityDefinitions Qp Qo, next.securityGroups = sd.securityGroups →
        SetGroups next := by
      intro next hsame group
      rw [SecurityDefinitions.getSecurityGroup, hsame]
      exact hset group
    exact hnext _ hgroups

theorem nodup_members {sd : SecurityDefinitions Qp Qo} (h : SetGroups sd)
    (value : SecurityStatus30) (hzero : getInt value.securityID = 0) :
    (statusIds sd value).Nodup := by
  simp only [statusIds, hzero, ne_eq, not_true_eq_false, if_false, List.nil_append]
  split
  · exact (h value.securityGroup).filter _
  · exact List.nodup_nil

/-- A named security gets the status alone if nobody gets it through the group. -/
theorem named_iff {sd : SecurityDefinitions Qp Qo} (value : SecurityStatus30) {named : Int}
    (hid : value.securityID = some named) (hnamed : named ≠ 0) :
    ((statusIds sd value).Nodup ∧ ∀ i, i ∈ statusIds sd value ↔ Addressee sd value i) ↔
      ∀ i, ¬ KnownMember sd value i := by
  have hget : getInt value.securityID = named := by rw [hid]; rfl
  have haddressee : ∀ i, Addressee sd value i ↔ i = named ∧ (sd.getSecurity i).isSome := by
    intro i
    rw [Addressee, hid]
  constructor
  · rintro ⟨hnodup, hmem⟩ i hi
    -- a member would be the named security itself and get the status twice
    obtain ⟨rfl, hknown⟩ := (haddressee i).1 ((hmem i).1 ((mem_statusIds sd value i).2 (Or.inr hi)))
    rw [statusIds, hget, if_pos hnamed, if_pos hi.1] at hnodup
    exact List.disjoint_of_nodup_append hnodup
      (List.mem_filter.2 ⟨List.mem_singleton_self i, hknown⟩)
      (List.mem_filter.2 ⟨hi.2.1, hknown⟩)
  · intro hnone
    refine ⟨?_, ?_⟩
    · have hgroup : (if value.securityGroup ≠ "" then (sd.getSecurityGroup
          value.securityGroup).filter fun i => (sd.getSecurity i).isSome else []) = [] := by
        split
        · next hne =>
          rw [List.filter_eq_nil_iff]
          intro i hi hknown
          exact hnone i ⟨hne, hi, hknown⟩
        · rfl
      rw [statusIds, hgroup, List.append_nil]
      split
      · exact (List.nodup_singleton _).filter _
      · exact List.nodup_nil
    · intro i
      rw [mem_statusIds, haddressee, hget]
      simp [hnamed, hnone i]

/-- The status reaches exactly its addressees if the message names no security, or if it names one
and its group would add nobody. The id zero is taken for no id, so there the group has to stand for
that very security. -/
theorem status_reaches_addressees_iff (env : Env Qp Qo) (streamId : Nat) (frame : Frame)
    (st : Cache × Shared Qp Qo) (value : SecurityStatus30)
    (hsets : SetGroups st.2.securityDefinitions) :
    Reaches st.2.securityDefinitions ⟨streamId, frame, value.transactTime⟩ value st.2.trace
        (Incremental.onMessage env streamId frame st (.securityStatus30 value)).2.trace ↔
      value.securityID = none ∨
      (∃ named, value.securityID = some named ∧ named ≠ 0 ∧
        ∀ i, ¬ KnownMember st.2.securityDefinitions value i) ∨
      (value.securityID = some 0 ∧ ∀ i, KnownMember st.2.securityDefinitions value i ↔
        i = 0 ∧ (st.2.securityDefinitions.getSecurity 0).isSome) := by
  rw [reaches_iff]
  cases hid : value.securityID with
  | none =>
    have hzero : getInt value.securityID = 0 := by rw [hid]; rfl
    refine iff_of_true ⟨nodup_members hsets value hzero, ?_⟩ (Or.inl rfl)
    intro i
    rw [mem_statusIds, hzero, Addressee, hid]
    simp
  | some named =>
    by_cases hnamed : named = 0
    · subst hnamed
      have hzero : getInt value.securityID = 0 := by rw [hid]; rfl
      have hmem : ∀ i, (i ∈ statusIds st.2.securityDefinitions value ↔
          Addressee st.2.securityDefinitions value i) ↔
            (KnownMember st.2.securityDefinitions value i ↔
              i = 0 ∧ (st.2.securityDefinitions.getSecurity 0).isSome) := by
        intro i
        have haddressee : Addressee st.2.securityDefinitions value i ↔
            i = 0 ∧ (st.2.securityDefinitions.getSecurity 0).isSome := by
          rw [Addressee, hid]
          refine and_congr_right ?_
          rintro rfl
          rfl
        rw [mem_statusIds, hzero, haddressee]
        simp
      simp only [hmem, nodup_members hsets value hzero, true_and]
      simp
    · rw [named_iff value hid hnamed]
      simp [hnamed]

/-- Two contracts of one group. -/
def twoContracts : Shared (Option Nat) (Option Nat) :=
  (Feeds.ofSecDefs (Env.direct {}) [SecDef.sample 7 "ESZ5", SecDef.sample 8 "ESH6"]).shared

/-- A halt of the group, and a halt of one contract without a group. -/
theorem status_reaches_group_and_contract :
    let env := Env.direct {}
    let group : SecurityStatus30 := ⟨0, "ES", none, .tradingHalt⟩
    let contract : SecurityStatus30 := ⟨0, "", some 7, .tradingHalt⟩
    Reaches twoContracts.securityDefinitions ⟨1, ⟨1, 0⟩, 0⟩ group twoContracts.trace
        (Incremental.onMessage env 1 ⟨1, 0⟩ ({}, twoContracts) (.securityStatus30 group)).2.trace ∧
      Reaches twoContracts.securityDefinitions ⟨1, ⟨1, 0⟩, 0⟩ contract twoContracts.trace
        (Incremental.onMessage env 1 ⟨1, 0⟩ ({}, twoContracts)
          (.securityStatus30 contract)).2.trace := by
  intro env group contract
  have hsets : SetGroups twoContracts.securityDefinitions := run_setGroups env _ []
  refine ⟨?_, ?_⟩
  · exact (status_reaches_addressees_iff env 1 ⟨1, 0⟩ ({}, twoContracts) group hsets).2 (Or.inl rfl)
  · refine (status_reaches_addressees_iff env 1 ⟨1, 0⟩ ({}, twoContracts) contract hsets).2
      (Or.inr (Or.inl ⟨7, rfl, by decide, ?_⟩))
    intro i hi
    exact hi.1 rfl

/-- The halt of one contract, in a message that also names its group: the contract gets it twice and
the other contract once. -/
theorem status_of_contract_reaches_group :
    let value : SecurityStatus30 := ⟨0, "ES", some 7, .tradingHalt⟩
    let after := (Incremental.onMessage (Env.direct {}) 1 ⟨1, 0⟩ ({}, twoContracts)
      (.securityStatus30 value)).2.trace
    (marketStatuses after).map Prod.fst = [7, 7, 8] ∧
      ¬ Reaches twoContracts.securityDefinitions ⟨1, ⟨1, 0⟩, 0⟩ value twoContracts.trace after := by
  intro value after
  have hids : (marketStatuses after).map Prod.fst = [7, 7, 8] := by decide +kernel
  refine ⟨hids, ?_⟩
  rintro ⟨new, hnew, hnodup, -⟩
  have hold : marketStatuses twoContracts.trace = [] := by decide +kernel
  rw [hold, List.nil_append] at hnew
  rw [hnew] at hids
  rw [hids] at hnodup
  revert hnodup
  decide

end RoqCme.MarketData
