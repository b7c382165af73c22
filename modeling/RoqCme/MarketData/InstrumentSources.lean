import RoqCme.MarketData.Views
import Mathlib.Data.List.Induction

/-! The sources of instruments: the secdef file and the definitions on two feeds. On the
incremental feed only futures are created; the file groups by asset, the messages by security
group. -/
namespace RoqCme.MarketData
open RoqCme.Mdp RoqCme.Tools
variable {Qp Qo : Type}

/-- Publishing reference data leaves all definitions as they are. -/
theorem performAll_referenceData (env : Env Qp Qo) (ctx : Context) (securityId : Int)
    (value : InstrumentDefinition) (shared : Shared Qp Qo) :
    (performAll env ctx [⟨securityId, .referenceData value⟩] shared).securityDefinitions =
      shared.securityDefinitions := by
  simp only [performAll, List.foldl_cons, List.foldl_nil, Call.perform, Shared.onSecurity]
  split
  · rfl
  · next s hs =>
    simp only [SecurityDefinitions.setSecurity, Action.op, ← hs, Function.update_eq_self]

theorem performAll_referenceData_trace (env : Env Qp Qo) (ctx : Context) (securityId : Int)
    (value : InstrumentDefinition) {shared : Shared Qp Qo}
    (h : shared.securityDefinitions.hasSecurity securityId = true) :
    (performAll env ctx [⟨securityId, .referenceData value⟩] shared).trace ≠ shared.trace := by
  obtain ⟨s, hs⟩ := Option.isSome_iff_exists.1 h
  simp [performAll, Call.perform, Shared.onSecurity, hs]

/-- The table after a definition on the instrument definition feed, whatever its kind. -/
theorem InstrumentDefinition.onMessage_table (env : Env Qp Qo) (streamId : Nat) (frame : Frame)
    (shared : Shared Qp Qo) (value : InstrumentDefinition) :
    (InstrumentDefinition.onMessage env streamId frame shared
      (.instrumentDefinition value)).securityDefinitions =
      shared.securityDefinitions.define env.discardSymbol env.mbpSequencer.init
        env.mboSequencer.init value := by
  simp only [InstrumentDefinition.onMessage]
  split
  · next h => exact (define_of_hasSecurity _ _ _ h).symm
  · exact performAll_referenceData env _ _ value _

/-- The table after a definition on the incremental feed: only a future is created. -/
theorem Incremental.onMessage_table (env : Env Qp Qo) (streamId : Nat) (frame : Frame)
    (cache : Cache) (shared : Shared Qp Qo) (value : InstrumentDefinition) :
    (Incremental.onMessage env streamId frame (cache, shared)
      (.instrumentDefinition value)).2.securityDefinitions =
      if value.kind = .future54 then
        shared.securityDefinitions.define env.discardSymbol env.mbpSequencer.init
          env.mboSequencer.init value
      else shared.securityDefinitions := by
  simp only [Incremental.onMessage, react, instrumentDefinition, definitionsAfter]
  split
  · split
    · rfl
    · exact performAll_referenceData env _ _ value _
  · split
    · exact performAll_referenceData env _ _ value _
    · rfl

/-- Futures are handled alike on both feeds. -/
theorem Incremental.onMessage_future54 (env : Env Qp Qo) (streamId : Nat) (frame : Frame)
    (cache : Cache) (shared : Shared Qp Qo) {value : InstrumentDefinition}
    (h : value.kind = .future54) :
    (Incremental.onMessage env streamId frame (cache, shared) (.instrumentDefinition value)).2 =
      InstrumentDefinition.onMessage env streamId frame shared (.instrumentDefinition value) := by
  simp only [Incremental.onMessage, react, instrumentDefinition, definitionsAfter,
    InstrumentDefinition.onMessage, if_pos h, Bool.or_false]
  split
  · next hk =>
    rw [define_of_hasSecurity _ _ _ hk]
    rfl
  · rfl

/-- What it is for a definition to mean the same on both feeds. -/
structure DefinesAlike (env : Env Qp Qo) (streamId : Nat) (frame : Frame) (cache : Cache)
    (shared : Shared Qp Qo) (value : InstrumentDefinition) : Prop where
  table :
    (Incremental.onMessage env streamId frame (cache, shared)
        (.instrumentDefinition value)).2.securityDefinitions =
      (InstrumentDefinition.onMessage env streamId frame shared
        (.instrumentDefinition value)).securityDefinitions
  published :
    (Incremental.onMessage env streamId frame (cache, shared) (.instrumentDefinition value)).2.trace =
      (InstrumentDefinition.onMessage env streamId frame shared (.instrumentDefinition value)).trace
  known : shared.securityDefinitions.hasSecurity value.securityID = false →
    env.discardSymbol value.symbol = false →
    ((Incremental.onMessage env streamId frame (cache, shared)
      (.instrumentDefinition value)).2.securityDefinitions.getSecurity value.securityID).isSome
  anyOrder :
    (InstrumentDefinition.onMessage env streamId frame
        (Incremental.onMessage env streamId frame (cache, shared) (.instrumentDefinition value)).2
        (.instrumentDefinition value)).securityDefinitions =
      (Incremental.onMessage env streamId frame (cache,
        InstrumentDefinition.onMessage env streamId frame shared (.instrumentDefinition value))
        (.instrumentDefinition value)).2.securityDefinitions

/-- In every state, an instrument definition means the same on both feeds exactly when it is that
of a future: of the other kinds the incremental feed creates none, and publishes those it knows
again. -/
theorem definition_feeds_agree_iff (env : Env Qp Qo) (streamId : Nat) (frame : Frame)
    (cache : Cache) (shared : Shared Qp Qo) (value : InstrumentDefinition) :
    DefinesAlike env streamId frame cache shared value ↔ value.kind = .future54 := by
  constructor
  · intro h
    by_contra hkind
    cases hk : shared.securityDefinitions.hasSecurity value.securityID with
    | false =>
      have htable := h.table
      rw [Incremental.onMessage_table, if_neg hkind, InstrumentDefinition.onMessage_table] at htable
      have hnew := define_hasSecurity env.discardSymbol env.mbpSequencer.init
        env.mboSequencer.init shared.securityDefinitions value
      rw [← htable, hk] at hnew
      cases hnew
    | true =>
      obtain ⟨s, hs⟩ := Option.isSome_iff_exists.1 hk
      have hpublished := h.published
      simp only [Incremental.onMessage, react, instrumentDefinition, definitionsAfter,
        if_neg hkind, SecurityDefinitions.getSecurityInclDiscard, hs,
        InstrumentDefinition.onMessage, if_pos hk, Bool.or_false] at hpublished
      exact performAll_referenceData_trace env _ _ value hk hpublished
  · intro hkind
    have hsame := Incremental.onMessage_future54 env streamId frame cache shared hkind
    refine ⟨by rw [hsame], by rw [hsame], ?_, ?_⟩
    · intro hnew hkeep
      rw [Incremental.onMessage_table, if_pos hkind]
      exact define_getSecurity _ _ hnew hkeep
    · rw [InstrumentDefinition.onMessage_table, Incremental.onMessage_table,
        Incremental.onMessage_table, InstrumentDefinition.onMessage_table, if_pos hkind, if_pos hkind]

/-- A definition in one market segment. -/
def InstrumentDefinition.sample (kind : InstrumentKind) (securityID : Int)
    (symbol securityGroup : String) : InstrumentDefinition :=
  { kind := kind, securityID := securityID, marketSegmentID := 64, securityExchange := "XCME"
    symbol := symbol, securityGroup := securityGroup, displayFactor := 10000000
    minPriceIncrement := some 25000000000, currency := "USD", settlCurrency := "USD"
    strikeCurrency := "", contractMultiplier := none, minTradeVol := 1, maxTradeVol := 3000
    mDSecurityTradingStatus := .readyToTrade }

/-- An option first announced on the incremental feed stays unknown there. -/
theorem option_unknown_from_incremental :
    let env := Env.direct {}
    let value := InstrumentDefinition.sample .option55 1312 "ESZ2 C4000" "EW"
    let shared : Shared _ _ := {}
    ((Incremental.onMessage env 1 ⟨1, 0⟩ ({}, shared)
        (.instrumentDefinition value)).2.securityDefinitions.hasSecurity 1312 = false ∧
      (InstrumentDefinition.onMessage env 1 ⟨1, 0⟩ shared
        (.instrumentDefinition value)).securityDefinitions.hasSecurity 1312 = true) ∧
    ¬ DefinesAlike env 1 ⟨1, 0⟩ {} shared value := by
  intro env value shared
  have hsplit : (Incremental.onMessage env 1 ⟨1, 0⟩ ({}, shared)
        (.instrumentDefinition value)).2.securityDefinitions.hasSecurity 1312 = false ∧
      (InstrumentDefinition.onMessage env 1 ⟨1, 0⟩ shared
        (.instrumentDefinition value)).securityDefinitions.hasSecurity 1312 = true := by
    decide +kernel
  refine ⟨hsplit, ?_⟩
  intro h
  have hnew := hsplit.2
  rw [← h.table, hsplit.1] at hnew
  cases hnew

/-- One instrument in the form of the secdef file and in that of a message. What the two forms
share is the same in both; the security group of the file is not read, nor the asset of the
message. -/
structure Instrument where
  secDef : SecDef
  definition : InstrumentDefinition
  future : definition.kind = .future54
  securityId : definition.securityID = toInt32 secDef.securityId
  segment : definition.marketSegmentID = secDef.marketSegmentId
  exchange : definition.securityExchange = secDef.exchange
  symbol : definition.symbol = secDef.symbol
  displayFactor : price9 definition.displayFactor = secDef.displayFactor

/-- The definition of each instrument in turn, on either feed. -/
def Announces (deliveries : List Delivery) (instruments : List Instrument) : Prop :=
  List.Forall₂ (fun d i =>
    (∃ channelId streamId frame, d = Delivery.incremental channelId streamId frame
      (.instrumentDefinition i.definition)) ∨
    ∃ streamId frame, d = Delivery.instrumentDefinition streamId frame
      (.instrumentDefinition i.definition)) deliveries instruments

/-- Two tables that no query tells apart. A security group is a set, and so is what a status
message reaches. -/
structure Alike (sd sd' : SecurityDefinitions Qp Qo) : Prop where
  getSecurity : ∀ securityId, sd.getSecurity securityId = sd'.getSecurity securityId
  findSecurityId : ∀ segment symbol,
    sd.findSecurityId segment symbol = sd'.findSecurityId segment symbol
  getSecurityGroup : ∀ group securityId,
    securityId ∈ sd.getSecurityGroup group ↔ securityId ∈ sd'.getSecurityGroup group
  securityStatus : ∀ cache pending value call,
    call ∈ (securityStatus30 sd cache pending value).calls ↔
      call ∈ (securityStatus30 sd' cache pending value).calls

theorem announced_table (env : Env Qp Qo) {deliveries : List Delivery}
    {instruments : List Instrument} (h : Announces deliveries instruments) (f : Feeds Qp Qo) :
    (Feeds.run env deliveries f).shared.securityDefinitions =
      (instruments.map Instrument.definition).foldl (SecurityDefinitions.define env.discardSymbol
        env.mbpSequencer.init env.mboSequencer.init) f.shared.securityDefinitions := by
  induction h generalizing f with
  | nil => rfl
  | @cons d i deliveries instruments hd _ ih =>
    have hstep : (f.step env d).shared.securityDefinitions =
        f.shared.securityDefinitions.define env.discardSymbol env.mbpSequencer.init
          env.mboSequencer.init i.definition := by
      obtain ⟨channelId, streamId, frame, rfl⟩ | ⟨streamId, frame, rfl⟩ := hd
      · refine (Incremental.onMessage_table env streamId frame _ _ _).trans ?_
        rw [if_pos i.future]
      · exact InstrumentDefinition.onMessage_table env streamId frame _ _
    rw [List.map_cons, List.foldl_cons, ← hstep]
    exact ih (f.step env d)

/-- The tables from the file and from the messages after the instruments `done`. -/
structure Paired (done : List Instrument) (file wire : SecurityDefinitions Qp Qo) : Prop where
  securities : ∀ securityId, file.securities securityId = wire.securities securityId
  symbols : ∀ segment symbol,
    file.findSecurityId segment symbol = wire.findSecurityId segment symbol
  known : ∀ securityId, wire.hasSecurity securityId = true →
    ∃ i ∈ done, i.definition.securityID = securityId
  fileGroups : ∀ group securityId, securityId ∈ file.getSecurityGroup group ↔
    ∃ i ∈ done, i.secDef.asset = group ∧ i.definition.securityID = securityId
  wireGroups : ∀ group securityId, securityId ∈ wire.getSecurityGroup group ↔
    ∃ i ∈ done, i.definition.securityGroup = group ∧ i.definition.securityID = securityId

/-- One record of the file and one message more: the same security, under the same id and the same
symbol, but each in its own group. -/
theorem Paired.step {discardSymbol : String → Bool} (mbp : Qp) (mbo : Qo)
    {done : List Instrument} {file wire : SecurityDefinitions Qp Qo} (h : Paired done file wire)
    (i : Instrument) (hkeep : discardSymbol i.secDef.symbol = false)
    (hnew : ∀ j ∈ done, j.definition.securityID ≠ i.definition.securityID) :
    Paired (done ++ [i]) (file.onSecDef discardSymbol mbp mbo i.secDef)
      (wire.define discardSymbol mbp mbo i.definition) := by
  let security := newSecurity mbp mbo i.secDef.exchange i.secDef.symbol i.secDef.displayFactor false
  have hfile : file.onSecDef discardSymbol mbp mbo i.secDef =
      ((file.emplaceSecurity i.definition.securityID security).insertGroup i.secDef.asset
        i.definition.securityID).emplaceSymbol i.secDef.marketSegmentId i.secDef.symbol
        i.definition.securityID := by
    simp only [SecurityDefinitions.onSecDef, hkeep, Bool.false_eq_true, if_false, ← i.securityId]
    rfl
  have hunknown : wire.hasSecurity i.definition.securityID = false := by
    rw [← Bool.not_eq_true]
    intro hk
    obtain ⟨j, hj, he⟩ := h.known _ hk
    exact hnew j hj he
  have hwire : wire.define discardSymbol mbp mbo i.definition =
      ((wire.emplaceSecurity i.definition.securityID security).insertGroup
        i.definition.securityGroup i.definition.securityID).emplaceSymbol
        i.secDef.marketSegmentId i.secDef.symbol i.definition.securityID := by
    simp only [SecurityDefinitions.define, hunknown, Bool.false_eq_true, if_false,
      createSecurity_eq, newSecurity, i.symbol, hkeep, i.segment, i.exchange, i.displayFactor]
    rfl
  rw [hfile, hwire]
  refine ⟨?_, ?_, ?_, ?_, ?_⟩
  · intro securityId
    simp only [emplaceSymbol_securities, insertGroup_securities, emplaceSecurity_securities,
      h.securities]
  · intro segment symbol
    simp only [emplaceSymbol_find, insertGroup_find, emplaceSecurity_find, h.symbols]
  · intro securityId hk
    simp only [SecurityDefinitions.hasSecurity, emplaceSymbol_securities, insertGroup_securities,
      emplaceSecurity_securities] at hk
    by_cases he : securityId = i.definition.securityID
    · exact ⟨i, by simp, he.symm⟩
    · rw [if_neg he] at hk
      obtain ⟨j, hj, hid⟩ := h.known securityId hk
      exact ⟨j, List.mem_append_left _ hj, hid⟩
  · intro group securityId
    rw [emplaceSymbol_group, mem_insertGroup, emplaceSecurity_group, h.fileGroups]
    simp [or_and_right, exists_or, eq_comm]
  · intro group securityId
    rw [emplaceSymbol_group, mem_insertGroup, emplaceSecurity_group, h.wireGroups]
    simp [or_and_right, exists_or, eq_comm]

theorem paired {discardSymbol : String → Bool} (mbp : Qp) (mbo : Qo)
    (instruments : List Instrument)
    (hkeep : ∀ i ∈ instruments, discardSymbol i.secDef.symbol = false)
    (hids : (instruments.map fun i => i.definition.securityID).Nodup) :
    Paired instruments
      (SecurityDefinitions.load discardSymbol mbp mbo (instruments.map Instrument.secDef))
      ((instruments.map Instrument.definition).foldl
        (SecurityDefinitions.define discardSymbol mbp mbo) {}) := by
  induction instruments using List.reverseRecOn with
  | nil =>
    refine ⟨fun _ => rfl, fun _ _ => rfl, ?_, ?_, ?_⟩
    · intro securityId hk
      cases hk
    · intro group securityId
      simp [SecurityDefinitions.load, SecurityDefinitions.getSecurityGroup]
    · intro group securityId
      simp [SecurityDefinitions.getSecurityGroup]
  | append_singleton instruments i ih =>
    rw [List.map_append, List.nodup_append] at hids
    obtain ⟨hnodup, -, hdisjoint⟩ := hids
    have hpair := ih (fun j hj => hkeep j (List.mem_append_left _ hj)) hnodup
    have hnew : ∀ j ∈ instruments, j.definition.securityID ≠ i.definition.securityID := by
      intro j hj
      exact hdisjoint _ (List.mem_map_of_mem hj) _ (by simp)
    have hstep := hpair.step mbp mbo i (hkeep i (by simp)) hnew
    simp only [SecurityDefinitions.load, List.map_append, List.foldl_append, List.map_cons,
      List.map_nil, List.foldl_cons, List.foldl_nil] at hstep ⊢
    exact hstep

/-- Tables with the same securities and groups spread a status alike. -/
theorem securityStatus30_congr {sd sd' : SecurityDefinitions Qp Qo}
    (hget : ∀ securityId, sd.getSecurity securityId = sd'.getSecurity securityId)
    (hgroup : ∀ group securityId,
      securityId ∈ sd.getSecurityGroup group ↔ securityId ∈ sd'.getSecurityGroup group)
    (cache : Cache) (pending : PendingSummary) (value : SecurityStatus30) (call : Call) :
    call ∈ (securityStatus30 sd cache pending value).calls ↔
      call ∈ (securityStatus30 sd' cache pending value).calls := by
  simp only [securityStatus30, hget, List.mem_append]
  refine or_congr_right ?_
  split
  · simp only [List.mem_flatMap, hgroup]
  · rfl

/-- The secdef file and the definitions of the same instruments, on whichever feed, fill tables
that no query tells apart exactly when each instrument has its asset for security group. -/
theorem instrument_loaders_agree_iff (env : Env Qp Qo) (instruments : List Instrument)
    (hkeep : ∀ i ∈ instruments, env.discardSymbol i.secDef.symbol = false)
    (hids : (instruments.map fun i => i.definition.securityID).Nodup)
    (deliveries : List Delivery) (hd : Announces deliveries instruments) :
    Alike (Feeds.ofSecDefs env (instruments.map Instrument.secDef)).shared.securityDefinitions
        (Feeds.run env deliveries (Feeds.ofSecDefs env [])).shared.securityDefinitions ↔
      ∀ i ∈ instruments, i.secDef.asset = i.definition.securityGroup := by
  have hpair := paired env.mbpSequencer.init env.mboSequencer.init instruments hkeep hids
  have hwire := announced_table env hd (Feeds.ofSecDefs env [])
  rw [hwire]
  constructor
  · intro h i hi
    have hin := (hpair.fileGroups i.secDef.asset i.definition.securityID).2 ⟨i, hi, rfl, rfl⟩
    obtain ⟨j, hj, hgroup, hid⟩ := (hpair.wireGroups _ _).1 ((h.getSecurityGroup _ _).1 hin)
    have he : j = i := List.inj_on_of_nodup_map hids hj hi hid
    rw [← hgroup, he]
  · intro h
    have hget : ∀ securityId, (Feeds.ofSecDefs env
        (instruments.map Instrument.secDef)).shared.securityDefinitions.getSecurity securityId =
          ((instruments.map Instrument.definition).foldl (SecurityDefinitions.define
            env.discardSymbol env.mbpSequencer.init env.mboSequencer.init) {}).getSecurity
            securityId := by
      intro securityId
      exact congrArg (Option.filter _) (hpair.securities securityId)
    have hgroup : ∀ group securityId, securityId ∈ (Feeds.ofSecDefs env
        (instruments.map Instrument.secDef)).shared.securityDefinitions.getSecurityGroup group ↔
          securityId ∈ ((instruments.map Instrument.definition).foldl (SecurityDefinitions.define
            env.discardSymbol env.mbpSequencer.init env.mboSequencer.init) {}).getSecurityGroup
            group := by
      intro group securityId
      refine (hpair.fileGroups group securityId).trans (Iff.trans ?_
        (hpair.wireGroups group securityId).symm)
      constructor
      · rintro ⟨i, hi, hg, hid⟩
        exact ⟨i, hi, (h i hi).symm.trans hg, hid⟩
      · rintro ⟨i, hi, hg, hid⟩
        exact ⟨i, hi, (h i hi).trans hg, hid⟩
    exact ⟨hget, hpair.symbols, hgroup, securityStatus30_congr hget hgroup⟩

/-- A future of the file with its message. -/
def Instrument.sample (securityId : Nat) (symbol asset securityGroup : String) : Instrument :=
  { secDef := { SecDef.sample securityId symbol with
      exchange := "XCME", displayFactor := price9 10000000, asset := asset }
    definition := InstrumentDefinition.sample .future54 (toInt32 securityId) symbol securityGroup
    future := rfl
    securityId := by simp only [InstrumentDefinition.sample, SecDef.sample]
    segment := rfl, exchange := rfl, symbol := rfl, displayFactor := rfl }

theorem instrument_loaders_agree_on_front_month :
    let env := Env.direct {}
    let i := Instrument.sample 118 "ESU4" "ES" "ES"
    Alike (Feeds.ofSecDefs env [i.secDef]).shared.securityDefinitions
      (Feeds.run env [.incremental 310 1 ⟨1, 0⟩ (.instrumentDefinition i.definition)]
        (Feeds.ofSecDefs env [])).shared.securityDefinitions := by
  intro env i
  refine (instrument_loaders_agree_iff env [i] (by simp [env, Env.direct]) (by simp) _ ?_).2
    (by simp [i, Instrument.sample, InstrumentDefinition.sample])
  exact .cons (Or.inl ⟨310, 1, ⟨1, 0⟩, rfl⟩) .nil

/-- Two instruments of one exchange as in the reader's test, `ESU4` of group `ES` and `0ESZ2` of
group `$E`: a status for the group `$E` reaches the second only if it came in a message. -/
theorem status_misses_security_of_other_asset :
    let env := Env.direct {}
    let instruments := [Instrument.sample 118 "ESU4" "ES" "ES",
      Instrument.sample 1312 "0ESZ2" "0ES" "$E"]
    let file := (Feeds.ofSecDefs env (instruments.map Instrument.secDef)).shared.securityDefinitions
    let wire := (Feeds.run env (instruments.map fun i => .instrumentDefinition 1 ⟨1, 0⟩
      (.instrumentDefinition i.definition)) (Feeds.ofSecDefs env [])).shared.securityDefinitions
    let value : SecurityStatus30 := ⟨100, "$E", none, .tradingHalt⟩
    file.getSecurityGroup "$E" = [] ∧ wire.getSecurityGroup "$E" = [1312] ∧
      (securityStatus30 file {} {} value).calls = [] ∧
      (securityStatus30 wire {} {} value).calls = [⟨1312, .marketStatus .halt⟩] := by
  decide +kernel

end RoqCme.MarketData
