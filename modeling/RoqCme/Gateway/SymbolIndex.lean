import RoqCme.Gateway.OrderEntry
import RoqCme.MarketData.Views
import Mathlib.Data.List.Induction

/-! The index from symbols to security ids. Instrument definitions keep it sound whatever they
contain; the secdef file does so exactly when its records agree on the symbol of an id. -/
namespace RoqCme.Gateway
open RoqCme.Mdp RoqCme.Ilink RoqCme.MarketData RoqCme.Tools
variable {Qp Qo : Type}

/-- Both indices lead to known securities that are not discarded, a symbol to its own. -/
structure Indexed (sd : SecurityDefinitions Qp Qo) : Prop where
  symbol : ∀ segment symbol securityId, sd.findSecurityId segment symbol = some securityId →
    ∃ s, sd.getSecurity securityId = some s ∧ s.discard = false ∧ s.symbol = symbol
  group : ∀ group, ∀ securityId ∈ sd.getSecurityGroup group,
    ∃ s, sd.getSecurity securityId = some s ∧ s.discard = false

theorem Indexed.grow {sd sd' : SecurityDefinitions Qp Qo} (h : Indexed sd) (hg : Grown sd sd')
    (hs : SameIndex sd sd') : Indexed sd' where
  symbol segment symbol securityId hf := by
    rw [SecurityDefinitions.findSecurityId, hs.1] at hf
    obtain ⟨s, hget, -, rfl⟩ := h.symbol segment symbol securityId hf
    obtain ⟨s', hget', hi, hd⟩ := hg.getSecurity hget
    exact ⟨s', hget', hd, hi.symbol⟩
  group group securityId hm := by
    rw [SecurityDefinitions.getSecurityGroup, hs.2] at hm
    obtain ⟨s, hget, -⟩ := h.group group securityId hm
    obtain ⟨s', hget', -, hd⟩ := hg.getSecurity hget
    exact ⟨s', hget', hd⟩

/-- A known security enters both indices; a symbol that is taken keeps its id. -/
theorem Indexed.insert {sd : SecurityDefinitions Qp Qo} (h : Indexed sd) {securityId : Int}
    {s : Security Qp Qo} (hs : sd.getSecurity securityId = some s) (group : String)
    (segment : Nat) :
    Indexed ((sd.insertGroup group securityId).emplaceSymbol segment s.symbol securityId) := by
  have hget : ∀ i, ((sd.insertGroup group securityId).emplaceSymbol segment s.symbol
      securityId).getSecurity i = sd.getSecurity i := by
    intro i
    simp only [SecurityDefinitions.getSecurity, emplaceSymbol_securities, insertGroup_securities]
  have hd : s.discard = false := (getSecurity_eq_some.1 hs).2
  constructor
  · intro segment' symbol' i hf
    rw [hget]
    rw [emplaceSymbol_find, insertGroup_find, insertGroup_find] at hf
    split at hf
    · next he =>
      obtain ⟨rfl, rfl⟩ := he
      simp only [Option.some.injEq] at hf
      cases hold : sd.findSecurityId segment' s.symbol with
      | none =>
        rw [hold] at hf
        cases hf
        exact ⟨s, hs, hd, rfl⟩
      | some old =>
        rw [hold] at hf
        cases hf
        exact h.symbol _ _ _ hold
    · exact h.symbol _ _ _ hf
  · intro group' i hm
    rw [hget]
    rw [emplaceSymbol_group] at hm
    cases (mem_insertGroup sd group group' securityId i).1 hm with
    | inl hm => exact h.group group' i hm
    | inr he =>
      obtain ⟨-, rfl⟩ := he
      exact ⟨s, hs, hd⟩

/-- A definition is ignored for a known id, and otherwise adds a security of its own symbol. -/
theorem Indexed.define {sd : SecurityDefinitions Qp Qo} (h : Indexed sd)
    (discardSymbol : String → Bool) (mbp : Qp) (mbo : Qo) (value : Mdp.InstrumentDefinition) :
    Indexed (sd.define discardSymbol mbp mbo value) := by
  unfold SecurityDefinitions.define
  split
  · exact h
  · next hk =>
    have hnone : sd.securities value.securityID = none := by
      simpa [SecurityDefinitions.hasSecurity] using hk
    have hnew := h.grow (emplaceSecurity_grown sd value.securityID (newSecurity mbp mbo
      value.securityExchange value.symbol (price9 value.displayFactor)
      (discardSymbol value.symbol))) (emplaceSecurity_sameIndex sd _ _)
    rw [createSecurity_eq]
    split
    · exact hnew
    · next hd =>
      refine hnew.insert ?_ _ _
      rw [getSecurity_eq_some, emplaceSecurity_securities, if_pos rfl, hnone]
      exact ⟨rfl, by simpa using hd⟩

/-- No delivery of any feed disturbs the indices. -/
theorem step_indexed (env : Env Qp Qo) (d : Delivery) {f : Feeds Qp Qo}
    (h : Indexed f.shared.securityDefinitions) :
    Indexed (f.step env d).shared.securityDefinitions := by
  obtain ⟨sd, rfl | ⟨value, rfl⟩, hg, hi⟩ := f.step_table env d
  · exact h.grow hg hi
  · exact (h.define _ _ _ value).grow hg hi

theorem run_indexed (env : Env Qp Qo) (deliveries : List Delivery) (f : Feeds Qp Qo) :
    Grown f.shared.securityDefinitions (Feeds.run env deliveries f).shared.securityDefinitions ∧
      (Indexed f.shared.securityDefinitions →
        Indexed (Feeds.run env deliveries f).shared.securityDefinitions) := by
  induction deliveries generalizing f with
  | nil => exact ⟨.refl _, id⟩
  | cons d deliveries ih =>
    obtain ⟨hg, hi⟩ := ih (f.step env d)
    exact ⟨(step_grown env f d).trans hg, fun h => hi (step_indexed env d h)⟩

section Secdef
variable (discardSymbol : String → Bool)

/-- The first record that is kept and has this security id. -/
def firstWithId (securityId : Int) (items : List SecDef) : Option SecDef :=
  items.find? fun item => !discardSymbol item.symbol && decide (toInt32 item.securityId = securityId)

/-- The first record that is kept and has this symbol in the market segment. -/
def firstWithSymbol (segment : Nat) (symbol : String) (items : List SecDef) : Option SecDef :=
  items.find? fun item => !discardSymbol item.symbol &&
    decide (item.marketSegmentId = segment ∧ item.symbol = symbol)

/-- The first record with a symbol and the first record with its id have the same symbol. -/
def SecdefConsistent (items : List SecDef) : Prop :=
  ∀ segment symbol item, firstWithSymbol discardSymbol segment symbol items = some item →
    ∀ other, firstWithId discardSymbol (toInt32 item.securityId) items = some other →
      other.symbol = symbol

/-- The security that a record stands for. -/
def securityOf (mbp : Qp) (mbo : Qo) (item : SecDef) : Security Qp Qo :=
  newSecurity mbp mbo item.exchange item.symbol item.displayFactor (discardSymbol item.symbol)

theorem load_concat (mbp : Qp) (mbo : Qo) (items : List SecDef) (item : SecDef) :
    SecurityDefinitions.load discardSymbol mbp mbo (items ++ [item]) =
      SecurityDefinitions.onSecDef discardSymbol mbp mbo
        (SecurityDefinitions.load discardSymbol mbp mbo items) item := by
  simp only [SecurityDefinitions.load, List.foldl_append, List.foldl_cons, List.foldl_nil]

/-- The first record that meets a condition stays the first; the new one only counts if there was
none. -/
theorem find_concat_map {β : Type} (p : SecDef → Bool) (f : SecDef → β) (items : List SecDef)
    (item : SecDef) : ((items ++ [item]).find? p).map f =
      if p item then some (((items.find? p).map f).getD (f item)) else (items.find? p).map f := by
  rw [List.find?_append]
  cases items.find? p with
  | none =>
    cases hp : p item with
    | true => simp [hp]
    | false => simp [hp]
  | some first => simp

theorem load_securities_eq (mbp : Qp) (mbo : Qo) (items : List SecDef) (securityId : Int) :
    (SecurityDefinitions.load discardSymbol mbp mbo items).securities securityId =
      (firstWithId discardSymbol securityId items).map (securityOf discardSymbol mbp mbo) := by
  induction items using List.reverseRecOn with
  | nil => rfl
  | append_singleton items item ih =>
    rw [load_concat, firstWithId, find_concat_map, ← firstWithId, ← ih]
    simp only [SecurityDefinitions.onSecDef]
    cases hd : discardSymbol item.symbol with
    | true => simp only [if_true, Bool.not_true, Bool.false_and, Bool.false_eq_true, if_false]
    | false =>
      simp only [Bool.false_eq_true, if_false, emplaceSymbol_securities, insertGroup_securities,
        emplaceSecurity_securities, Bool.not_false, Bool.true_and, decide_eq_true_eq, securityOf, hd]
      by_cases he : securityId = toInt32 item.securityId
      · rw [if_pos he, if_pos he.symm, he]
      · rw [if_neg he, if_neg (Ne.symm he)]

theorem load_find_eq (mbp : Qp) (mbo : Qo) (items : List SecDef) (segment : Nat)
    (symbol : String) :
    (SecurityDefinitions.load discardSymbol mbp mbo items).findSecurityId segment symbol =
      (firstWithSymbol discardSymbol segment symbol items).map fun item =>
        toInt32 item.securityId := by
  induction items using List.reverseRecOn with
  | nil => rfl
  | append_singleton items item ih =>
    rw [load_concat, firstWithSymbol, find_concat_map, ← firstWithSymbol, ← ih]
    simp only [SecurityDefinitions.onSecDef]
    cases hd : discardSymbol item.symbol with
    | true => simp only [if_true, Bool.not_true, Bool.false_and, Bool.false_eq_true, if_false]
    | false =>
      have hfind : ∀ id security seg sym, ((SecurityDefinitions.load discardSymbol mbp mbo
          items).emplaceSecurity id security).findSecurityId seg sym =
          (SecurityDefinitions.load discardSymbol mbp mbo items).findSecurityId seg sym := by
        intro id security seg sym
        simp only [SecurityDefinitions.findSecurityId, (emplaceSecurity_sameIndex _ _ _).1]
      simp only [Bool.false_eq_true, if_false, emplaceSymbol_find, insertGroup_find, hfind,
        Bool.not_false, Bool.true_and, decide_eq_true_eq]
      by_cases he : segment = item.marketSegmentId ∧ symbol = item.symbol
      · rw [if_pos he, if_pos ⟨he.1.symm, he.2.symm⟩, he.1, he.2]
      · rw [if_neg he, if_neg fun hx => he ⟨hx.1.symm, hx.2.symm⟩]

theorem load_group (mbp : Qp) (mbo : Qo) (items : List SecDef) (group : String)
    (securityId : Int)
    (h : securityId ∈
      (SecurityDefinitions.load discardSymbol mbp mbo items).getSecurityGroup group) :
    ∃ item ∈ items, discardSymbol item.symbol = false ∧ toInt32 item.securityId = securityId := by
  induction items using List.reverseRecOn with
  | nil => cases h
  | append_singleton items item ih =>
    rw [load_concat] at h
    simp only [SecurityDefinitions.onSecDef] at h
    split at h
    · obtain ⟨x, hx, hp⟩ := ih h
      exact ⟨x, List.mem_append_left _ hx, hp⟩
    · next hd =>
      rw [emplaceSymbol_group] at h
      cases (mem_insertGroup _ _ _ _ _).1 h with
      | inl h =>
        rw [SecurityDefinitions.getSecurityGroup, (emplaceSecurity_sameIndex _ _ _).2] at h
        obtain ⟨x, hx, hp⟩ := ih h
        exact ⟨x, List.mem_append_left _ hx, hp⟩
      | inr he => exact ⟨item, by simp, by simpa using hd, he.2.symm⟩

/-- A record that is kept leads to a security, though perhaps to that of an earlier record. -/
theorem load_known (mbp : Qp) (mbo : Qo) (items : List SecDef) (item : SecDef) (hi : item ∈ items)
    (hd : discardSymbol item.symbol = false) :
    ∃ other, firstWithId discardSymbol (toInt32 item.securityId) items = some other ∧
      (SecurityDefinitions.load discardSymbol mbp mbo items).getSecurity
        (toInt32 item.securityId) = some (securityOf discardSymbol mbp mbo other) ∧
      (securityOf discardSymbol mbp mbo other).discard = false := by
  have hsome : (firstWithId discardSymbol (toInt32 item.securityId) items).isSome := by
    rw [firstWithId, List.find?_isSome]
    exact ⟨item, hi, by simp [hd]⟩
  obtain ⟨other, ho⟩ := Option.isSome_iff_exists.1 hsome
  have hlive : discardSymbol other.symbol = false := by
    have hp := List.find?_some ho
    simp only [Bool.and_eq_true, Bool.not_eq_true'] at hp
    exact hp.1
  refine ⟨other, ho, getSecurity_eq_some.2 ⟨?_, hlive⟩, hlive⟩
  rw [load_securities_eq, ho]
  rfl

theorem load_indexed_iff (mbp : Qp) (mbo : Qo) (items : List SecDef) :
    Indexed (SecurityDefinitions.load discardSymbol mbp mbo items) ↔
      SecdefConsistent discardSymbol items := by
  have hfirst : ∀ segment symbol item,
      firstWithSymbol discardSymbol segment symbol items = some item →
      item ∈ items ∧ discardSymbol item.symbol = false := by
    intro segment symbol item hf
    have hp := List.find?_some hf
    simp only [Bool.and_eq_true, Bool.not_eq_true'] at hp
    exact ⟨List.mem_of_find?_eq_some hf, hp.1⟩
  constructor
  · intro h segment symbol item hf other ho
    obtain ⟨s, hget, -, hs⟩ := h.symbol segment symbol (toInt32 item.securityId) (by
      rw [load_find_eq, hf]
      rfl)
    obtain ⟨hi, hd⟩ := hfirst segment symbol item hf
    obtain ⟨other', ho', hget', -⟩ := load_known discardSymbol mbp mbo items item hi hd
    rw [ho] at ho'
    cases ho'
    rw [hget] at hget'
    cases hget'
    exact hs
  · intro h
    constructor
    · intro segment symbol securityId hf
      rw [load_find_eq, Option.map_eq_some_iff] at hf
      obtain ⟨item, hf, rfl⟩ := hf
      obtain ⟨hi, hd⟩ := hfirst segment symbol item hf
      obtain ⟨other, ho, hget, hlive⟩ := load_known discardSymbol mbp mbo items item hi hd
      exact ⟨_, hget, hlive, h segment symbol item hf other ho⟩
    · intro group securityId hm
      obtain ⟨item, hi, hd, rfl⟩ := load_group discardSymbol mbp mbo items group securityId hm
      obtain ⟨other, -, hget, hlive⟩ := load_known discardSymbol mbp mbo items item hi hd
      exact ⟨_, hget, hlive⟩

theorem readSecdef_isSome (sd : SecurityDefinitions Qp Qo) (items : List SecDef)
    (h : ∀ item ∈ items, discardSymbol item.symbol = false →
      (sd.getSecurity (toInt32 item.securityId)).isSome) :
    (readSecdef discardSymbol sd items).isSome := by
  induction items with
  | nil => rfl
  | cons item items ih =>
    have hrest := ih fun x hx => h x (List.mem_cons_of_mem item hx)
    unfold readSecdef
    split
    · exact hrest
    · next hd =>
      have hk := h item (by simp) (by simpa using hd)
      split
      · next hnone => rw [hnone] at hk; cases hk
      · rw [Option.isSome_map]
        exact hrest

end Secdef

/-- The security id in a message to the exchange. -/
def Outgoing.securityId : Outgoing → Option Int
  | .partyDetailsDefinitionRequest _ => none
  | .newOrderSingle value => some value.securityId
  | .orderCancelReplaceRequest value => some value.securityId
  | .orderCancelRequest value => some value.securityId

def OrderEntry.Request.symbol : OrderEntry.Request → String
  | .create _ order _ => order.symbol
  | .modify _ order => order.symbol
  | .cancel order => order.symbol

namespace OrderEntry

theorem mem_sendOrder {e : OrderEntry} {message : Nat → Outgoing} {x : Outgoing}
    (h : x ∈ (e.sendOrder message).sent) :
    x.securityId = none ∨ ∃ seqNum, x = message seqNum := by
  simp only [sendOrder, partyDetailsListReqId, if_true, sendPartyDetailsDefinitionRequest,
    List.singleton_append, List.mem_cons, List.not_mem_nil, or_false] at h
  cases h with
  | inl h =>
    subst h
    exact Or.inl rfl
  | inr h => exact Or.inr ⟨_, h⟩

theorem getQuantity_not_fatal {env : OrderEnv} {value : Double} {failure : Failure}
    (h : getQuantity env value = .error failure) : failure ≠ .fatal := by
  unfold getQuantity at h
  split at h
  · cases h
    exact Failure.noConfusion
  · split at h
    · cases h
    · cases h
      exact Failure.noConfusion

theorem mapExecutionInstructions_not_fatal {instructions : List ExecutionInstruction}
    {failure : Failure} (h : mapExecutionInstructions instructions = .error failure) :
    failure ≠ .fatal := by
  unfold mapExecutionInstructions at h
  split at h
  · cases h
  · cases h
    exact Failure.noConfusion

/-- The messages with a security id carry the one under which the symbol is found, and the fatal
branch is for such an id without a security. -/
structure UsesIndex (sd : SecurityDefinitions Qp Qo) (segment : Nat) (symbol : String)
    (step : Step) : Prop where
  sent : ∀ x ∈ step.sent, ∀ securityId, x.securityId = some securityId →
    sd.findSecurityId segment symbol = some securityId
  fatal : step.failure = some .fatal →
    ∃ securityId, sd.findSecurityId segment symbol = some securityId ∧
      sd.getSecurity securityId = none

theorem UsesIndex.fail {sd : SecurityDefinitions Qp Qo} {segment : Nat} {symbol : String}
    {e : OrderEntry} {failure : Failure} (h : failure ≠ .fatal) :
    UsesIndex sd segment symbol (e.fail failure) where
  sent x hx := by cases hx
  fatal hf := absurd (Option.some.inj hf) h

theorem UsesIndex.sendOrder {sd : SecurityDefinitions Qp Qo} {segment : Nat} {symbol : String}
    {e : OrderEntry} {message : Nat → Outgoing} {securityId : Int}
    (hfind : sd.findSecurityId segment symbol = some securityId)
    (h : ∀ seqNum, (message seqNum).securityId = some securityId) :
    UsesIndex sd segment symbol (e.sendOrder message) where
  sent x hx id hid := by
    cases mem_sendOrder hx with
    | inl hnone =>
      rw [hnone] at hid
      cases hid
    | inr hm =>
      obtain ⟨seqNum, rfl⟩ := hm
      rw [h seqNum] at hid
      cases hid
      exact hfind
  fatal hf := by cases hf

theorem onRequest_usesIndex (env : OrderEnv) (sd : SecurityDefinitions Qp Qo) (e : OrderEntry)
    (request : Request) :
    UsesIndex sd e.marketSegmentId request.symbol (e.onRequest env sd request) := by
  unfold onRequest
  split
  · cases request with
    | create createOrder order requestId =>
      simp only [sendNewOrderSingle, Request.symbol]
      split
      · exact .fail Failure.noConfusion
      · next securityId hfind =>
        split
        · next hget =>
          refine ⟨?_, fun _ => ⟨securityId, hfind, hget⟩⟩
          intro x hx
          cases hx
        · split
          · exact .fail Failure.noConfusion
          · split
            · next hq => exact .fail (getQuantity_not_fatal hq)
            · split
              · next hm => exact .fail (mapExecutionInstructions_not_fatal hm)
              · exact .sendOrder hfind fun _ => rfl
    | modify modifyOrder order =>
      simp only [sendOrderCancelReplaceRequest, Request.symbol]
      split
      · exact .fail Failure.noConfusion
      · next securityId hfind =>
        split
        · next hq => exact .fail (getQuantity_not_fatal hq)
        · exact .sendOrder hfind fun _ => rfl
    | cancel order =>
      simp only [sendOrderCancelRequest, Request.symbol]
      split
      · exact .fail Failure.noConfusion
      · next securityId hfind => exact .sendOrder hfind fun _ => rfl
  · exact .fail Failure.noConfusion

end OrderEntry

/-- Orders reach the exchange with the id of a security of their own symbol, and none of them
ends in the fatal branch. -/
def OrdersReachTheirSecurity (sd : SecurityDefinitions Qp Qo) : Prop :=
  ∀ (env : OrderEnv) (e : OrderEntry) (request : OrderEntry.Request),
    (e.onRequest env sd request).failure ≠ some .fatal ∧
      ∀ x ∈ (e.onRequest env sd request).sent, ∀ securityId, x.securityId = some securityId →
        ∃ s, sd.getSecurity securityId = some s ∧ s.symbol = request.symbol

theorem Indexed.orders {sd : SecurityDefinitions Qp Qo} (h : Indexed sd) :
    OrdersReachTheirSecurity sd := by
  intro env e request
  have huse := e.onRequest_usesIndex env sd request
  refine ⟨?_, ?_⟩
  · intro hf
    obtain ⟨securityId, hfind, hget⟩ := huse.fatal hf
    obtain ⟨s, hs, -⟩ := h.symbol _ _ _ hfind
    rw [hget] at hs
    cases hs
  · intro x hx securityId hid
    obtain ⟨s, hs, -, hsym⟩ := h.symbol _ _ _ (huse.sent x hx securityId hid)
    exact ⟨s, hs, hsym⟩

/-- The table that the feeds have after the secdef file and some deliveries. -/
def tableAfter (env : Env Qp Qo) (items : List SecDef) (deliveries : List Delivery) :
    SecurityDefinitions Qp Qo :=
  (Feeds.run env deliveries (Feeds.ofSecDefs env items)).shared.securityDefinitions

/-- Whatever is delivered, the indices stay sound, orders reach their security and the records of
the file are found again, exactly when the records agree on the symbol of an id. -/
theorem symbol_index_sound_iff (env : Env Qp Qo) (items : List SecDef) :
    (∀ deliveries, Indexed (tableAfter env items deliveries) ∧
      OrdersReachTheirSecurity (tableAfter env items deliveries) ∧
      (readSecdef env.discardSymbol (tableAfter env items deliveries) items).isSome) ↔
    SecdefConsistent env.discardSymbol items := by
  constructor
  · intro h
    exact (load_indexed_iff env.discardSymbol _ _ items).1 (h []).1
  · intro h deliveries
    obtain ⟨hgrown, hkeep⟩ := run_indexed env deliveries (Feeds.ofSecDefs env items)
    have hi : Indexed (tableAfter env items deliveries) :=
      hkeep ((load_indexed_iff env.discardSymbol _ _ items).2 h)
    refine ⟨hi, hi.orders, readSecdef_isSome _ _ _ ?_⟩
    intro item hm hd
    obtain ⟨other, -, hget, -⟩ := load_known env.discardSymbol _ _ items item hm hd
    obtain ⟨s, hs, -⟩ := hgrown.getSecurity hget
    exact Option.isSome_iff_exists.2 ⟨s, hs⟩

/-- Two records of the secdef file with the same id. -/
def crossedItems : List SecDef := [SecDef.sample 7 "ESZ5", SecDef.sample 7 "NQZ5"]

/-- The second symbol leads to the security of the first, and an order for it goes out with the
id of the first. -/
theorem symbol_index_crossed :
    ¬ Indexed (tableAfter (Env.direct {}) crossedItems []) ∧
      ¬ OrdersReachTheirSecurity (tableAfter (Env.direct {}) crossedItems []) := by
  have hsymbol : ((tableAfter (Env.direct {}) crossedItems []).getSecurity 7).map Security.symbol =
      some "ESZ5" := by
    decide +kernel
  refine ⟨?_, ?_⟩
  · intro h
    obtain ⟨s, hs, -, hsym⟩ := h.symbol 64 "NQZ5" 7 (by decide +kernel)
    rw [hs, Option.map_some, hsym] at hsymbol
    revert hsymbol
    decide
  · intro h
    have hsent : .newOrderSingle ⟨some 50, 1, 7, .buy, 2, "ACC", "1", 0, 0x0101000000000001, 0, none,
        "NY", .limit, .day, 0⟩ ∈ (OrderEntry.onRequest (OrderEnv.exact 0)
          (tableAfter (Env.direct {}) crossedItems []) ⟨64, "ACC", "FIRM", "NY", true, 0⟩
          (.create ⟨"CME", .buy, .limit, .gfd, [], some 1, some 50, none⟩
            ⟨"NQZ5", .buy, .limit, .gfd, 1, 1, ""⟩ "1")).sent := by
      decide +kernel
    obtain ⟨s, hs, hsym⟩ := (h _ _ _).2 _ hsent 7 rfl
    rw [hs, Option.map_some, hsym] at hsymbol
    revert hsymbol
    decide

end RoqCme.Gateway
