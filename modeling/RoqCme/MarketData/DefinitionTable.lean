import RoqCme.MarketData.SecurityDefinitions

/-! How the three maps of the security definitions are filled, by id, by group and by symbol. -/
namespace RoqCme.MarketData
open RoqCme.Mdp RoqCme.Tools
variable {Qp Qo : Type}

theorem getSecurity_eq_some {sd : SecurityDefinitions Qp Qo} {securityId : Int}
    {s : Security Qp Qo} : sd.getSecurity securityId = some s ↔
      sd.securities securityId = some s ∧ s.discard = false := by
  simp [SecurityDefinitions.getSecurity, Option.filter_eq_some_iff]

theorem setSecurity_self {sd : SecurityDefinitions Qp Qo} {securityId : Int}
    {security : Security Qp Qo} (h : sd.securities securityId = some security) :
    sd.setSecurity securityId security = sd := by
  rw [SecurityDefinitions.setSecurity, ← h, Function.update_eq_self]

@[simp] theorem insertGroup_securities (sd : SecurityDefinitions Qp Qo) (group : String)
    (securityId : Int) : (sd.insertGroup group securityId).securities = sd.securities := by
  unfold SecurityDefinitions.insertGroup
  split
  · rfl
  · rfl

@[simp] theorem emplaceSymbol_securities (sd : SecurityDefinitions Qp Qo) (segment : Nat)
    (symbol : String) (securityId : Int) :
    (sd.emplaceSymbol segment symbol securityId).securities = sd.securities := by
  unfold SecurityDefinitions.emplaceSymbol
  split
  · rfl
  · rfl

/-- `try_emplace` keeps what is there and adds only under the new id. -/
theorem emplaceSecurity_securities (sd : SecurityDefinitions Qp Qo) (securityId : Int)
    (security : Security Qp Qo) (other : Int) :
    (sd.emplaceSecurity securityId security).securities other =
      if other = securityId then some ((sd.securities securityId).getD security)
      else sd.securities other := by
  unfold SecurityDefinitions.emplaceSecurity
  by_cases he : other = securityId
  · subst he
    split
    · next s hs => simp [hs]
    · next hs => simp [hs]
  · split
    · simp [he]
    · simp [he]

@[simp] theorem emplaceSecurity_find (sd : SecurityDefinitions Qp Qo) (securityId : Int)
    (security : Security Qp Qo) (segment : Nat) (symbol : String) :
    (sd.emplaceSecurity securityId security).findSecurityId segment symbol =
      sd.findSecurityId segment symbol := by
  unfold SecurityDefinitions.emplaceSecurity
  split
  · rfl
  · rfl

@[simp] theorem emplaceSecurity_group (sd : SecurityDefinitions Qp Qo) (securityId : Int)
    (security : Security Qp Qo) (group : String) :
    (sd.emplaceSecurity securityId security).getSecurityGroup group =
      sd.getSecurityGroup group := by
  unfold SecurityDefinitions.emplaceSecurity
  split
  · rfl
  · rfl

/-- `try_emplace` of a symbol: what was there stays. -/
theorem emplaceSymbol_find (sd : SecurityDefinitions Qp Qo) (segment : Nat) (symbol : String)
    (securityId : Int) (segment' : Nat) (symbol' : String) :
    (sd.emplaceSymbol segment symbol securityId).findSecurityId segment' symbol' =
      if segment' = segment ∧ symbol' = symbol then
        some ((sd.findSecurityId segment symbol).getD securityId)
      else sd.findSecurityId segment' symbol' := by
  unfold SecurityDefinitions.emplaceSymbol SecurityDefinitions.findSecurityId
  by_cases he : segment' = segment ∧ symbol' = symbol
  · obtain ⟨rfl, rfl⟩ := he
    rw [if_pos ⟨rfl, rfl⟩]
    split
    · next id hid => rw [hid]; rfl
    · next hid => simp [hid]
  · rw [if_neg he]
    split
    · rfl
    · by_cases hseg : segment' = segment
      · subst hseg
        have hsym : symbol' ≠ symbol := fun hx => he ⟨rfl, hx⟩
        simp [Function.update_of_ne hsym]
      · simp [Function.update_of_ne hseg]

theorem mem_insertGroup (sd : SecurityDefinitions Qp Qo) (group other : String)
    (securityId i : Int) : i ∈ (sd.insertGroup group securityId).getSecurityGroup other ↔
      i ∈ sd.getSecurityGroup other ∨ other = group ∧ i = securityId := by
  unfold SecurityDefinitions.insertGroup SecurityDefinitions.getSecurityGroup
  by_cases hg : other = group
  · subst hg
    split
    · next h =>
      refine ⟨Or.inl, ?_⟩
      rintro (hi | ⟨-, rfl⟩)
      · exact hi
      · exact h
    · simp
  · split
    · simp [hg]
    · simp [hg]

@[simp] theorem insertGroup_find (sd : SecurityDefinitions Qp Qo) (group : String)
    (securityId : Int) (segment : Nat) (symbol : String) :
    (sd.insertGroup group securityId).findSecurityId segment symbol =
      sd.findSecurityId segment symbol := by
  unfold SecurityDefinitions.insertGroup
  split
  · rfl
  · rfl

@[simp] theorem emplaceSymbol_group (sd : SecurityDefinitions Qp Qo) (segment : Nat)
    (symbol : String) (securityId : Int) (group : String) :
    (sd.emplaceSymbol segment symbol securityId).getSecurityGroup group =
      sd.getSecurityGroup group := by
  unfold SecurityDefinitions.emplaceSymbol
  split
  · rfl
  · rfl

theorem emplaceSecurity_insertGroup (sd : SecurityDefinitions Qp Qo) (group : String)
    (securityId other : Int) (security : Security Qp Qo) :
    (sd.insertGroup group other).emplaceSecurity securityId security =
      (sd.emplaceSecurity securityId security).insertGroup group other := by
  unfold SecurityDefinitions.emplaceSecurity SecurityDefinitions.insertGroup
  by_cases hg : other ∈ sd.securityGroups group
  · cases hs : sd.securities securityId with
    | none => simp [hs, hg]
    | some old => simp [hs, hg]
  · cases hs : sd.securities securityId with
    | none => simp [hs, hg]
    | some old => simp [hs, hg]

theorem emplaceSecurity_emplaceSymbol (sd : SecurityDefinitions Qp Qo) (segment : Nat)
    (symbol : String) (securityId other : Int) (security : Security Qp Qo) :
    (sd.emplaceSymbol segment symbol other).emplaceSecurity securityId security =
      (sd.emplaceSecurity securityId security).emplaceSymbol segment symbol other := by
  unfold SecurityDefinitions.emplaceSecurity SecurityDefinitions.emplaceSymbol
  cases hm : sd.marketSegments segment symbol with
  | none =>
    cases hs : sd.securities securityId with
    | none => simp [hm]
    | some old => simp [hm]
  | some id =>
    cases hs : sd.securities securityId with
    | none => simp [hm]
    | some old => simp [hm]

/-- The three maps may be filled in any order. -/
theorem createSecurity_eq (sd : SecurityDefinitions Qp Qo) (group : String) (segment : Nat)
    (securityId : Int) (security : Security Qp Qo) :
    sd.createSecurity group segment securityId security =
      if security.discard then sd.emplaceSecurity securityId security
      else ((sd.emplaceSecurity securityId security).insertGroup group securityId).emplaceSymbol
        segment security.symbol securityId := by
  unfold SecurityDefinitions.createSecurity
  cases security.discard with
  | true => rfl
  | false =>
    simp only [Bool.false_eq_true, if_false]
    rw [emplaceSecurity_emplaceSymbol, emplaceSecurity_insertGroup]

theorem createSecurity_securities (sd : SecurityDefinitions Qp Qo) (group : String)
    (segment : Nat) (securityId : Int) (security : Security Qp Qo) (other : Int) :
    (sd.createSecurity group segment securityId security).securities other =
      if other = securityId then some ((sd.securities securityId).getD security)
      else sd.securities other := by
  unfold SecurityDefinitions.createSecurity
  simp only [emplaceSecurity_securities]
  split
  · split
    · rfl
    · simp
  · split
    · rfl
    · simp

/-- A definition adds a security under its own id, unless there is one. -/
theorem define_securities_eq (discardSymbol : String → Bool) (mbp : Qp) (mbo : Qo)
    (sd : SecurityDefinitions Qp Qo) (value : InstrumentDefinition) (securityId : Int) :
    (sd.define discardSymbol mbp mbo value).securities securityId =
      if securityId = value.securityID then
        some ((sd.securities securityId).getD (newSecurity mbp mbo value.securityExchange
          value.symbol (price9 value.displayFactor) (discardSymbol value.symbol)))
      else sd.securities securityId := by
  unfold SecurityDefinitions.define
  by_cases he : securityId = value.securityID
  · subst he
    split
    · next hk =>
      obtain ⟨s, hs⟩ := Option.isSome_iff_exists.1 hk
      simp [hs]
    · rw [createSecurity_securities]
  · rw [if_neg he]
    split
    · rfl
    · rw [createSecurity_securities, if_neg he]

/-- A definition never replaces a security, and a new one is fresh. -/
theorem define_securities (discardSymbol : String → Bool) (mbp : Qp) (mbo : Qo)
    (sd : SecurityDefinitions Qp Qo) (value : InstrumentDefinition) (securityId : Int) :
    (sd.define discardSymbol mbp mbo value).securities securityId = sd.securities securityId ∨
      sd.securities securityId = none ∧ ∃ exchange symbol factor discard,
        (sd.define discardSymbol mbp mbo value).securities securityId =
          some (newSecurity mbp mbo exchange symbol factor discard) := by
  rw [define_securities_eq]
  by_cases he : securityId = value.securityID
  · rw [if_pos he]
    cases hs : sd.securities securityId with
    | some s => exact Or.inl rfl
    | none => exact Or.inr ⟨rfl, _, _, _, _, rfl⟩
  · rw [if_neg he]
    exact Or.inl rfl

theorem define_of_hasSecurity (discardSymbol : String → Bool) (mbp : Qp) (mbo : Qo)
    {sd : SecurityDefinitions Qp Qo} {value : InstrumentDefinition}
    (h : sd.hasSecurity value.securityID = true) :
    sd.define discardSymbol mbp mbo value = sd := by
  rw [SecurityDefinitions.define, if_pos h]

theorem define_hasSecurity (discardSymbol : String → Bool) (mbp : Qp) (mbo : Qo)
    (sd : SecurityDefinitions Qp Qo) (value : InstrumentDefinition) :
    (sd.define discardSymbol mbp mbo value).hasSecurity value.securityID = true := by
  rw [SecurityDefinitions.hasSecurity, define_securities_eq, if_pos rfl]
  rfl

theorem define_getSecurity {discardSymbol : String → Bool} (mbp : Qp) (mbo : Qo)
    {sd : SecurityDefinitions Qp Qo} {value : InstrumentDefinition}
    (hnew : sd.hasSecurity value.securityID = false) (hkeep : discardSymbol value.symbol = false) :
    ((sd.define discardSymbol mbp mbo value).getSecurity value.securityID).isSome := by
  have hnone : sd.securities value.securityID = none := Option.not_isSome_iff_eq_none.1 (by
    rw [← SecurityDefinitions.hasSecurity, hnew]
    exact Bool.false_ne_true)
  rw [SecurityDefinitions.getSecurity, define_securities_eq, if_pos rfl, hnone]
  simp [newSecurity, hkeep]

/-- The secdef file only creates fresh securities. -/
theorem load_securities (discardSymbol : String → Bool) (mbp : Qp) (mbo : Qo)
    (items : List SecDef) (securityId : Int) (s : Security Qp Qo)
    (h : (SecurityDefinitions.load discardSymbol mbp mbo items).securities securityId = some s) :
    ∃ exchange symbol factor discard, s = newSecurity mbp mbo exchange symbol factor discard := by
  have hfold : ∀ (xs : List SecDef) (sd : SecurityDefinitions Qp Qo),
      (∀ i t, sd.securities i = some t →
        ∃ exchange symbol factor discard, t = newSecurity mbp mbo exchange symbol factor discard) →
      ∀ i t, (xs.foldl (SecurityDefinitions.onSecDef discardSymbol mbp mbo) sd).securities i =
        some t →
        ∃ exchange symbol factor discard, t = newSecurity mbp mbo exchange symbol factor discard := by
    intro xs
    induction xs with
    | nil => intro sd hsd; exact hsd
    | cons item xs ih =>
      intro sd hsd
      apply ih
      intro i t ht
      simp only [SecurityDefinitions.onSecDef] at ht
      split at ht
      · exact hsd i t ht
      · rw [emplaceSymbol_securities, insertGroup_securities, emplaceSecurity_securities] at ht
        split at ht
        · cases hold : sd.securities (toInt32 item.securityId) with
          | some u =>
            rw [hold] at ht
            cases ht
            exact hsd _ _ hold
          | none =>
            rw [hold] at ht
            cases ht
            exact ⟨_, _, _, _, rfl⟩
        · exact hsd i t ht
  exact hfold items {} (fun i t ht => by cases ht) securityId s h

end RoqCme.MarketData
