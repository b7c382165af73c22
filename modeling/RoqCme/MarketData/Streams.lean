import Mathlib.Data.List.Induction
import RoqCme.Lib.History
import RoqCme.MarketData.ChannelIsolation
import RoqCme.MarketData.StreamIds

/-! What `market_data/manager` hands to the dispatcher: the instruments of the secdef file when it
starts, the status of its streams and the updates. A feed object keeps two more members, its
connection status and the time of its last update. -/
namespace RoqCme.MarketData
open RoqCme.Lib RoqCme.Mdp RoqCme.Tools
variable {β Qp Qo : Type}

inductive SupportType where
  | referenceData | marketStatus | topOfBook | marketByPrice | marketByOrder | tradeSummary
  | statistics
  deriving DecidableEq, Repr

/-- The values that the status of a feed takes. -/
inductive FeedStatus where
  | undefined | ready
  deriving DecidableEq, Repr

/-- The feed objects of a channel. -/
structure FeedId where
  channelId : Nat
  connectionType : ConnectionType
  priority : Priority
  deriving DecidableEq, Repr

def Packet.feedId (packet : Packet) : FeedId :=
  ⟨packet.channelId, packet.connectionType, packet.priority⟩

structure StreamStatus where
  streamId : Nat
  supports : List SupportType
  priority : Priority
  connectionStatus : FeedStatus
  interface : String
  path : String
  deriving DecidableEq, Repr

/-- The members `connection_status_` and `last_update_time_`. -/
structure FeedState where
  connectionStatus : FeedStatus := .undefined
  lastUpdateTime : Nat := 0
  deriving DecidableEq, Repr

/-- The options that only concern the streams, the names of the feeds and the records of the secdef
file, none without a file. -/
structure StreamSettings where
  localInterface : String
  multicastTimeout : Nat
  name : FeedId → String
  secdef : List SecDef

def getSupports (enableMarketByOrder : Bool) : ConnectionType → List SupportType
  | .instrumentDefinition => [.referenceData, .marketStatus]
  | .mbpMarketRecovery => [.marketByPrice, .statistics]
  | .mbofdMarketRecovery => [.marketByOrder]
  | .incremental =>
    [.referenceData, .marketStatus, .topOfBook, .marketByPrice, .marketByOrder, .tradeSummary,
      .statistics] ++ if enableMarketByOrder then [.marketByOrder] else []

/-- The handler of `Timer`, the same for every feed. -/
def FeedState.onTimer (multicastTimeout now : Nat) (s : FeedState) : FeedState :=
  if s.lastUpdateTime ≠ 0 ∧ s.lastUpdateTime + multicastTimeout < now then
    { s with lastUpdateTime := 0 }
  else s

/-- `utils::update`: whether the status was another one. -/
def FeedState.update (status : FeedStatus) (s : FeedState) : Bool × FeedState :=
  (decide (s.connectionStatus ≠ status), { s with connectionStatus := status })

inductive Output where
  | referenceData (value : ReferenceData)
  | streamStatus (value : StreamStatus)
  | update (value : Published)
  deriving DecidableEq, Repr

inductive Input where
  | start
  | stop
  | timer (now : Nat)
  | packet (value : Packet)
  deriving DecidableEq, Repr

def Effect.published : Effect → Option Published
  | .publish value => some value
  | _ => none

def Record.outputs (r : Record) : List Output :=
  (r.effects.filterMap Effect.published).map .update

/-- The manager with its feed objects and what the dispatcher got so far. `fatal` is the branch of
`read_secdef` for a record without a security. -/
structure Publisher (β Qp Qo : Type) where
  manager : Manager β Qp Qo
  feeds : FeedId → FeedState := fun _ => {}
  outputs : List Output := []
  fatal : Bool := false

namespace Publisher
variable (S : Setup β Qp Qo) (settings : StreamSettings)

def statusOf (feedId : FeedId) : StreamStatus :=
  { streamId := S.streamId feedId.channelId feedId.connectionType feedId.priority
    supports := getSupports S.env.options.enableMarketByOrder feedId.connectionType
    priority := feedId.priority, connectionStatus := .ready
    interface := settings.localInterface, path := settings.name feedId }

/-- `publish_stream_status` -/
def publishStreamStatus (feedId : FeedId) (p : Publisher β Qp Qo) : Publisher β Qp Qo :=
  let (changed, feed) := (p.feeds feedId).update .ready
  { p with
    feeds := Function.update p.feeds feedId feed
    outputs := p.outputs ++ if changed then [.streamStatus (statusOf S settings feedId)] else [] }

/-- The first packet of a feed publishes its status, before it is parsed. -/
def onPacket (packet : Packet) (p : Publisher β Qp Qo) : Publisher β Qp Qo :=
  match p.manager.channels packet.channelId with
  | none => p
  | some _ =>
    let p := p.publishStreamStatus S settings packet.feedId
    let manager := S.dispatch p.manager packet
    let records := manager.shared.trace.drop p.manager.shared.trace.length
    { p with manager := manager, outputs := p.outputs ++ records.flatMap Record.outputs }

def step (p : Publisher β Qp Qo) : Input → Publisher β Qp Qo
  | .start =>
    match readSecdef S.env.discardSymbol p.manager.shared.securityDefinitions settings.secdef with
    | some items => { p with outputs := p.outputs ++ items.map .referenceData }
    | none => { p with fatal := true }
  | .stop => p
  | .timer now =>
    { p with feeds := fun feedId => (p.feeds feedId).onTimer settings.multicastTimeout now }
  | .packet packet => p.onPacket S settings packet

def run (inputs : List Input) (p : Publisher β Qp Qo) : Publisher β Qp Qo :=
  inputs.foldl (step S settings) p

/-- After construction. -/
def start (channelIds : List Nat) (b : β) : Publisher β Qp Qo :=
  { manager := S.start channelIds b settings.secdef }

theorem step_outputs (p : Publisher β Qp Qo) (input : Input) :
    ∃ new, (p.step S settings input).outputs = p.outputs ++ new := by
  cases input with
  | start =>
    simp only [step]
    split
    · exact ⟨_, rfl⟩
    · exact ⟨[], (List.append_nil _).symm⟩
  | stop => exact ⟨[], (List.append_nil _).symm⟩
  | timer now => exact ⟨[], (List.append_nil _).symm⟩
  | packet packet =>
    simp only [step, onPacket]
    split
    · exact ⟨[], (List.append_nil _).symm⟩
    · exact ⟨_, List.append_assoc _ _ _⟩

end Publisher

section Growth
variable (env : Env Qp Qo)

/-- Records were added, all of them with `P`. -/
def Grows (P : Record → Prop) (s t : Shared Qp Qo) : Prop :=
  ∃ records, t.trace = s.trace ++ records ∧ ∀ r ∈ records, P r

theorem Grows.refl (P : Record → Prop) (s : Shared Qp Qo) : Grows P s s :=
  ⟨[], (List.append_nil _).symm, by simp⟩

theorem Grows.trans {P : Record → Prop} {s t u : Shared Qp Qo} (h : Grows P s t)
    (h' : Grows P t u) : Grows P s u := by
  obtain ⟨xs, hxs, hx⟩ := h
  obtain ⟨ys, hys, hy⟩ := h'
  refine ⟨xs ++ ys, by rw [hys, hxs, List.append_assoc], ?_⟩
  intro r hr
  cases List.mem_append.1 hr with
  | inl hr => exact hx r hr
  | inr hr => exact hy r hr

theorem Grows.onSecurity {P : Record → Prop} {s t : Shared Qp Qo} (h : Grows P s t)
    {securityId : Int} {site : Site} {op : SecurityOp Qp Qo}
    (hop : ∀ security, P ⟨securityId, site, (op security).2⟩) :
    Grows P s (t.onSecurity securityId site op) := by
  refine h.trans ?_
  unfold Shared.onSecurity
  split
  · exact .refl P t
  · next security _ =>
    refine ⟨_, rfl, ?_⟩
    intro r hr
    cases List.mem_singleton.1 hr
    exact hop security

theorem Grows.performAll {P : Record → Prop} {s t : Shared Qp Qo} (h : Grows P s t)
    (ctx : Context) (calls : List Call)
    (hcalls : ∀ call ∈ calls, ∀ security : Security Qp Qo,
      P ⟨call.securityId, call.action.site, (call.action.op env ctx security).2⟩) :
    Grows P s (performAll env ctx calls t) := by
  induction calls generalizing t with
  | nil => exact h
  | cons call calls ih =>
    apply ih
    · exact h.onSecurity (hcalls call List.mem_cons_self)
    · intro other hmem
      exact hcalls other (List.mem_cons_of_mem call hmem)

end Growth

section Origin
variable (env : Env Qp Qo)

/-- What an update is about. -/
def SupportType.of : Published → SupportType
  | .referenceData _ => .referenceData
  | .marketStatus _ _ => .marketStatus
  | .topOfBook _ _ _ => .topOfBook
  | .marketByPrice _ _ _ _ => .marketByPrice
  | .marketByOrder _ _ _ => .marketByOrder
  | .tradeSummary _ _ => .tradeSummary
  | .statistics _ _ _ => .statistics

/-- All updates of the record are on the stream `n` and of a kind that the feed supports. -/
def Record.IsFrom (connectionType : ConnectionType) (n : Nat) (r : Record) : Prop :=
  ∀ value, .publish value ∈ r.effects → value.onStream n = value ∧
    SupportType.of value ∈ getSupports env.options.enableMarketByOrder connectionType

/-- The feed and the stream that a delivery comes from. -/
def Delivery.origin : Delivery → Option (ConnectionType × Nat)
  | .incremental _ n _ _ => some (.incremental, n)
  | .sequenceReset _ => none
  | .instrumentDefinition n _ _ => some (.instrumentDefinition, n)
  | .mbpRecovery n _ _ _ => some (.mbpMarketRecovery, n)
  | .mbofdRecovery n _ _ => some (.mbofdMarketRecovery, n)

/-- An operation that works alike on its own stream only publishes there. -/
theorem AlikeOn.onStream_of_mem {n : Nat} {op : SecurityOp Qp Qo} (h : AlikeOn n op op)
    {security : Security Qp Qo} {value : Published} (hm : .publish value ∈ (op security).2) :
    value.onStream n = value := by
  have hmap : ∀ {es : List Effect}, es = es.map (Effect.onStream n) →
      .publish value ∈ es → value.onStream n = value := by
    intro es
    induction es with
    | nil => intro _ hm; cases hm
    | cons e es ih =>
      intro he hm
      rw [List.map_cons, List.cons.injEq] at he
      cases List.mem_cons.1 hm with
      | inl hm =>
        rw [← hm] at he
        exact (Effect.publish.inj he.1).symm
      | inr hm => exact ih he.2 hm
  exact hmap (Prod.mk.inj (h security)).2 hm

theorem mem_getSupports_incremental (b : Bool) (value : Published) :
    SupportType.of value ∈ getSupports b .incremental := by
  cases value <;> simp [SupportType.of, getSupports]

theorem Incremental.onMessage_grows (n : Nat) (frame : Frame) (cache : Cache)
    (shared : Shared Qp Qo) (message : Message) :
    Grows (Record.IsFrom env .incremental n) shared
      (Incremental.onMessage env n frame (cache, shared) message).2 := by
  unfold Incremental.onMessage
  apply Grows.performAll
  · exact ⟨[], (List.append_nil _).symm, by simp⟩
  · intro call _ security value hm
    refine ⟨?_, mem_getSupports_incremental _ value⟩
    exact AlikeOn.onStream_of_mem (Action.op_alike env n ⟨n, frame, _⟩ call.action) hm

theorem InstrumentDefinition.onMessage_grows (n : Nat) (frame : Frame) (shared : Shared Qp Qo)
    (message : Message) : Grows (Record.IsFrom env .instrumentDefinition n) shared
      (InstrumentDefinition.onMessage env n frame shared message) := by
  unfold InstrumentDefinition.onMessage
  split
  · next definition =>
    split
    · exact .refl _ shared
    · apply Grows.performAll
      · exact ⟨[], (List.append_nil _).symm, by simp⟩
      · intro call hcall security value hm
        cases List.mem_singleton.1 hcall
        refine ⟨AlikeOn.onStream_of_mem (Action.op_alike env n ⟨n, frame, _⟩ _) hm, ?_⟩
        simp only [Action.op, List.mem_cons, Effect.publish.injEq] at hm
        cases hm with
        | inl hm => simp [hm, SupportType.of, getSupports]
        | inr hm =>
          split at hm
          · cases hm
          · cases List.mem_singleton.1 hm
            simp [createMarketStatus, SupportType.of, getSupports]
  · exact .refl _ shared

theorem MBPMarketRecovery.onMessage_grows (n : Nat) (frame : Frame) (sequence : Sequence)
    (shared : Shared Qp Qo) (message : Message) :
    Grows (Record.IsFrom env .mbpMarketRecovery n) shared
      (MBPMarketRecovery.onMessage env n frame sequence shared message) := by
  have hop : ∀ value : Snapshot52, Grows (Record.IsFrom env .mbpMarketRecovery n) shared
      (shared.onSecurity value.securityID .mbpMarketRecovery
        (snapshotFullRefresh env ⟨n, frame, 0⟩ sequence value)) := by
    intro snapshot
    apply (Grows.refl _ shared).onSecurity
    intro security value hm
    refine ⟨AlikeOn.onStream_of_mem
      (snapshotFullRefresh_alike env n ⟨n, frame, 0⟩ sequence snapshot) hm, ?_⟩
    obtain ⟨-, ⟨levels, he⟩ | hecho⟩ := snapshotFullRefresh_effects env _ sequence snapshot
      security _ hm
    · cases he
    · cases hecho
      simp [SupportType.of, getSupports]
  unfold MBPMarketRecovery.onMessage
  split
  · split
    · exact hop _
    · exact .refl _ shared
  · split
    · exact hop _
    · exact .refl _ shared
  · exact .refl _ shared

theorem MBOFDMarketRecovery.onMessage_grows (n : Nat) (sequence : Sequence)
    (shared : Shared Qp Qo) (message : Message) :
    Grows (Record.IsFrom env .mbofdMarketRecovery n) shared
      (MBOFDMarketRecovery.onMessage env n sequence shared message) := by
  unfold MBOFDMarketRecovery.onMessage
  split
  · next snapshot =>
    split
    · apply (Grows.refl _ shared).onSecurity
      intro security value hm
      refine ⟨AlikeOn.onStream_of_mem
        (snapshotFullRefreshOrderBook53_alike env n n sequence snapshot) hm, ?_⟩
      obtain ⟨-, ⟨orders, he⟩ | hecho⟩ := snapshotFullRefreshOrderBook53_effects env n sequence
        snapshot security _ hm
      · cases he
      · cases hecho
        simp [SupportType.of, getSupports]
    · exact .refl _ shared
  · exact .refl _ shared

/-- Deliveries of one feed only publish on its stream, and only what the feed supports. -/
theorem Feeds.run_grows (connectionType : ConnectionType) (n : Nat) (ds : List Delivery)
    (hds : ∀ d ∈ ds, ∀ origin, d.origin = some origin → origin = (connectionType, n))
    (f : Feeds Qp Qo) :
    Grows (Record.IsFrom env connectionType n) f.shared (Feeds.run env ds f).shared := by
  induction ds generalizing f with
  | nil => exact .refl _ _
  | cons d ds ih =>
    have hrest := ih (fun other hm => hds other (List.mem_cons_of_mem d hm)) (f.step env d)
    refine Grows.trans ?_ hrest
    have horigin := hds d List.mem_cons_self
    cases d with
    | sequenceReset channelId => exact .refl _ _
    | incremental channelId m frame message =>
      cases horigin _ rfl
      exact Incremental.onMessage_grows env n frame _ _ message
    | instrumentDefinition m frame message =>
      cases horigin _ rfl
      exact InstrumentDefinition.onMessage_grows env n frame _ message
    | mbpRecovery m frame sequence message =>
      cases horigin _ rfl
      exact MBPMarketRecovery.onMessage_grows env n frame sequence _ message
    | mbofdRecovery m sequence message =>
      cases horigin _ rfl
      exact MBOFDMarketRecovery.onMessage_grows env n sequence _ message

end Origin

section Packets
variable (S : Setup β Qp Qo)

/-- The handlers only see the feed that has just received. -/
theorem Arbiter.dispatch_keeps {P σ : Type} (A : Arbiter β P σ) {I : σ → Prop} (feed : Priority)
    (hparse : ∀ p s, I s → I (A.parse feed p s)) (hreset : ∀ s, I s → I (A.reset s)) (p : P)
    {st : Channel β P × σ} (h : I st.2) : I (A.dispatch feed p st).2 := by
  have hreceive : I (A.receive feed p (st.1.arrive p, st.2)).2 := by
    unfold Arbiter.receive
    split
    · exact h
    · simp only
      split
      · exact h
      · split
        · exact h
        · exact hparse p _ h
  have hdrain : ∀ (fuel : Nat) (st : Channel β P × σ), I st.2 → I (A.drain feed fuel st).2 := by
    intro fuel
    induction fuel with
    | zero => exact fun _ h => h
    | succ fuel ih =>
      intro st h
      unfold Arbiter.drain
      split
      · simp only
        split
        · exact ih _ (hparse _ _ h)
        · exact h
      · exact h
  unfold Arbiter.dispatch
  simp only
  split
  · exact hdrain _ _ hreceive
  · exact hreset _ h

/-- The arbitration hands on under the feed that has just received. -/
theorem arbitrate_parses (packet : Packet) (channel : Channel β (List UInt8)) {feed : Priority}
    {payload : List UInt8} (h : .parse feed payload ∈ (S.arbitrate packet channel).2) :
    feed = packet.priority := by
  have hkeeps : ∀ feed payload, .parse feed payload ∈ (S.arbitrate packet channel).2 →
      feed = packet.priority := by
    unfold Setup.arbitrate
    split
    · apply Arbiter.dispatch_keeps (S.arbiter packet.channelId).logged packet.priority
        (I := fun log => ∀ feed payload, .parse feed payload ∈ log → feed = packet.priority)
      · intro p log hlog feed payload hm
        cases List.mem_append.1 hm with
        | inl hm => exact hlog feed payload hm
        | inr hm =>
          cases List.mem_singleton.1 hm
          rfl
      · intro log hlog feed payload hm
        cases List.mem_append.1 hm with
        | inl hm => exact hlog feed payload hm
        | inr hm => cases List.mem_singleton.1 hm
      · intro feed payload hm
        cases hm
    · intro feed payload hm
      cases hm
  exact hkeeps feed payload h

theorem packetDeliveries_origin (packet : Packet) (channel : Channel β (List UInt8)) :
    ∀ d ∈ S.packetDeliveries packet channel, ∀ origin, d.origin = some origin → origin =
      (packet.connectionType,
        S.streamId packet.channelId packet.connectionType packet.priority) := by
  intro d hd origin ho
  simp only [Setup.packetDeliveries] at hd
  split at hd
  case h_4 ht =>
    obtain ⟨handed, hhanded, hd⟩ := List.mem_flatMap.1 hd
    cases handed with
    | reset =>
      cases List.mem_singleton.1 hd
      cases ho
    | parse feed payload =>
      obtain rfl := arbitrate_parses S packet channel hhanded
      obtain ⟨frame, message, -, rfl⟩ := mem_parsed S hd
      cases ho
      rw [ht]
  all_goals
    next ht =>
    obtain ⟨frame, message, -, rfl⟩ := mem_parsed S hd
    cases ho
    rw [ht]

/-- All that a packet adds comes from its feed. -/
theorem dispatch_grows (m : Manager β Qp Qo) (packet : Packet) :
    Grows (Record.IsFrom S.env packet.connectionType
      (S.streamId packet.channelId packet.connectionType packet.priority)) m.shared
      (S.dispatch m packet).shared := by
  have h := Feeds.run_grows S.env packet.connectionType
    (S.streamId packet.channelId packet.connectionType packet.priority) (S.deliveries m packet)
    (by
      unfold Setup.deliveries
      split
      · exact packetDeliveries_origin S packet _
      · intro d hd
        cases hd) m.feeds
  rw [← dispatch_refines] at h
  exact h

end Packets

section Announced
variable (S : Setup β Qp Qo) (settings : StreamSettings) (channelIds : List Nat)

def Output.status : Output → Option StreamStatus
  | .streamStatus value => some value
  | _ => none

/-- The feeds of the configured channels that the inputs bring packets of, in order. -/
def heard (inputs : List Input) : List FeedId :=
  inputs.filterMap fun input =>
    match input with
    | .packet packet => if packet.channelId ∈ channelIds then some packet.feedId else none
    | _ => none

/-- An update goes out on a stream whose status said so before. -/
def Announced (before : List Output) (output : Output) : Prop :=
  ∀ value, output = .update value → ∃ status, .streamStatus status ∈ before ∧
    value.onStream status.streamId = value ∧ SupportType.of value ∈ status.supports

namespace Publisher

/-- What holds after the inputs: the feeds that were heard are ready and have been announced once,
in the order of their first packets. -/
structure Announces (inputs : List Input) (p : Publisher β Qp Qo) : Prop where
  channels : ∀ channelId, (p.manager.channels channelId).isSome = decide (channelId ∈ channelIds)
  ready : ∀ feedId, (p.feeds feedId).connectionStatus = .ready ↔ feedId ∈ heard channelIds inputs
  statuses : p.outputs.filterMap Output.status =
    (heard channelIds inputs).eraseDups.map (statusOf S settings)
  announced : Each Announced p.outputs

theorem heard_concat (inputs : List Input) (input : Input) :
    heard channelIds (inputs ++ [input]) = heard channelIds inputs ++ heard channelIds [input] :=
  List.filterMap_append

/-- The status goes out when the feed was not ready before. -/
theorem publishStreamStatus_outputs (feedId : FeedId) (p : Publisher β Qp Qo) :
    (p.publishStreamStatus S settings feedId).outputs = p.outputs ++
      if (p.feeds feedId).connectionStatus = .ready then []
      else [.streamStatus (statusOf S settings feedId)] := by
  by_cases h : (p.feeds feedId).connectionStatus = .ready
  · simp [Publisher.publishStreamStatus, FeedState.update, h]
  · simp [Publisher.publishStreamStatus, FeedState.update, h]

variable {S settings channelIds}

/-- An input that brings no packet of a configured channel announces nothing. -/
theorem Announces.quiet {inputs : List Input} {p q : Publisher β Qp Qo}
    (h : p.Announces S settings channelIds inputs) {input : Input}
    (hinput : heard channelIds [input] = []) (hmanager : q.manager = p.manager)
    (hfeeds : ∀ feedId, (q.feeds feedId).connectionStatus = (p.feeds feedId).connectionStatus)
    (recent : List ReferenceData) (houtputs : q.outputs = p.outputs ++ recent.map .referenceData) :
    q.Announces S settings channelIds (inputs ++ [input]) := by
  have hheard : heard channelIds (inputs ++ [input]) = heard channelIds inputs := by
    rw [heard_concat, hinput, List.append_nil]
  refine ⟨by rw [hmanager]; exact h.channels, ?_, ?_, ?_⟩
  · intro feedId
    rw [hheard, hfeeds, h.ready]
  · have hnone : (recent.map Output.referenceData).filterMap Output.status = [] := by
      rw [List.filterMap_map, List.filterMap_eq_nil_iff]
      intro item _
      rfl
    rw [houtputs, List.filterMap_append, hnone, List.append_nil, hheard, h.statuses]
  · rw [houtputs]
    apply each_append h.announced
    intro before output after he value houtput
    have hm : output ∈ recent.map Output.referenceData := by
      rw [he]
      simp
    obtain ⟨item, -, rfl⟩ := List.mem_map.1 hm
    cases houtput

theorem Announces.publishStreamStatus {inputs : List Input} {p : Publisher β Qp Qo}
    (h : p.Announces S settings channelIds inputs) {packet : Packet}
    (hp : packet.channelId ∈ channelIds) :
    (p.publishStreamStatus S settings packet.feedId).Announces S settings channelIds
      (inputs ++ [.packet packet]) := by
  have hheard : heard channelIds (inputs ++ [.packet packet]) =
      heard channelIds inputs ++ [packet.feedId] := by
    rw [heard_concat]
    simp [heard, hp]
  refine ⟨h.channels, ?_, ?_, ?_⟩
  · intro feedId
    rw [hheard, List.mem_append, List.mem_singleton, ← h.ready]
    by_cases he : feedId = packet.feedId
    · subst he
      simp [Publisher.publishStreamStatus, FeedState.update]
    · simp [Publisher.publishStreamStatus, he]
  · have hready := h.ready packet.feedId
    rw [hheard, List.eraseDups_append, List.map_append, ← h.statuses,
      publishStreamStatus_outputs, List.filterMap_append]
    congr 1
    by_cases hmem : packet.feedId ∈ heard channelIds inputs
    · simp [List.removeAll, hmem, hready.2 hmem]
    · have hne : (p.feeds packet.feedId).connectionStatus ≠ .ready := fun he => hmem (hready.1 he)
      simp [List.removeAll, List.eraseDups_cons, hmem, hne, Output.status]
  · rw [publishStreamStatus_outputs]
    apply each_append h.announced
    intro before output after he value houtput
    have hm : output ∈ before ++ output :: after := by simp
    rw [← he] at hm
    split at hm
    · cases hm
    · cases List.mem_singleton.1 hm
      cases houtput

/-- The status of a feed that was heard is among the outputs. -/
theorem Announces.mem_outputs {inputs : List Input} {p : Publisher β Qp Qo}
    (h : p.Announces S settings channelIds inputs) {feedId : FeedId}
    (hm : feedId ∈ heard channelIds inputs) :
    .streamStatus (statusOf S settings feedId) ∈ p.outputs := by
  have hstatus : statusOf S settings feedId ∈ p.outputs.filterMap Output.status := by
    rw [h.statuses]
    exact List.mem_map_of_mem (List.mem_eraseDups.2 hm)
  obtain ⟨output, houtput, he⟩ := List.mem_filterMap.1 hstatus
  cases output with
  | streamStatus value =>
    cases he
    exact houtput
  | _ => cases he

/-- What comes from records are the updates of their effects. -/
theorem mem_flatMap_outputs {records : List Record} {x : Output} :
    x ∈ records.flatMap Record.outputs ↔
      ∃ r ∈ records, ∃ value, .publish value ∈ r.effects ∧ .update value = x := by
  have hpublished : ∀ (r : Record) (value : Published),
      value ∈ r.effects.filterMap Effect.published ↔ .publish value ∈ r.effects := by
    intro r value
    rw [List.mem_filterMap]
    constructor
    · intro h
      obtain ⟨effect, heffect, hpub⟩ := h
      cases effect with
      | publish published =>
        cases hpub
        exact heffect
      | _ => cases hpub
    · exact fun h => ⟨_, h, rfl⟩
  simp only [List.mem_flatMap, Record.outputs, List.mem_map, hpublished]

theorem Announces.onPacket {inputs : List Input} {p : Publisher β Qp Qo}
    (h : p.Announces S settings channelIds inputs) (packet : Packet) :
    (p.onPacket S settings packet).Announces S settings channelIds
      (inputs ++ [.packet packet]) := by
  have hchannel := h.channels packet.channelId
  unfold Publisher.onPacket
  split
  · next hnone =>
    rw [hnone] at hchannel
    have hp : packet.channelId ∉ channelIds := by simpa using hchannel
    exact h.quiet (by simp [heard, hp]) rfl (fun _ => rfl) [] (List.append_nil _).symm
  · next item hsome =>
    rw [hsome] at hchannel
    have hp : packet.channelId ∈ channelIds := by simpa using hchannel
    have hq := h.publishStreamStatus hp
    have hfeed : packet.feedId ∈ heard channelIds (inputs ++ [.packet packet]) := by
      rw [heard_concat]
      simp [heard, hp]
    have hstatus := hq.mem_outputs hfeed
    generalize p.publishStreamStatus S settings packet.feedId = q at hq hstatus
    obtain ⟨records, hrecords, hfrom⟩ := dispatch_grows S q.manager packet
    refine ⟨?_, hq.ready, ?_, ?_⟩
    · intro channelId
      have hdomain := congrArg Option.isSome (dispatch_channel S q.manager packet channelId)
      rw [← hq.channels channelId]
      simp only [Manager.channel] at hdomain
      split at hdomain
      · simpa using hdomain
      · simpa using hdomain
    · simp only [hrecords, List.drop_left, List.filterMap_append, hq.statuses]
      have hnone : (records.flatMap Record.outputs).filterMap Output.status = [] := by
        rw [List.filterMap_eq_nil_iff]
        intro output hm
        obtain ⟨r, -, value, -, rfl⟩ := mem_flatMap_outputs.1 hm
        rfl
      rw [hnone, List.append_nil]
    · simp only [hrecords, List.drop_left]
      apply each_append hq.announced
      intro before x after he value hx
      have hm : x ∈ records.flatMap Record.outputs := by
        rw [he]
        simp
      obtain ⟨r, hr, value', heffect, rfl⟩ := mem_flatMap_outputs.1 hm
      cases hx
      exact ⟨_, List.mem_append_left before hstatus, hfrom r hr value heffect⟩

theorem Announces.step {inputs : List Input} {p : Publisher β Qp Qo}
    (h : p.Announces S settings channelIds inputs) (input : Input) :
    (p.step S settings input).Announces S settings channelIds (inputs ++ [input]) := by
  cases input with
  | packet packet => exact h.onPacket packet
  | stop => exact h.quiet rfl rfl (fun _ => rfl) [] (List.append_nil _).symm
  | timer now =>
    refine h.quiet rfl rfl ?_ [] (List.append_nil _).symm
    intro feedId
    simp only [Publisher.step, FeedState.onTimer]
    split
    · rfl
    · rfl
  | start =>
    simp only [Publisher.step]
    split
    · exact h.quiet rfl rfl (fun _ => rfl) _ rfl
    · exact h.quiet rfl rfl (fun _ => rfl) [] (List.append_nil _).symm

theorem Announces.run {before : List Input} {p : Publisher β Qp Qo}
    (h : p.Announces S settings channelIds before) (inputs : List Input) :
    (p.run S settings inputs).Announces S settings channelIds (before ++ inputs) := by
  induction inputs generalizing before p with
  | nil => simpa [Publisher.run] using h
  | cons input inputs ih =>
    have hrest := ih (h.step input)
    rw [List.append_assoc] at hrest
    exact hrest

theorem start_announces (b : β) :
    (start S settings channelIds b).Announces S settings channelIds [] := by
  refine ⟨?_, ?_, rfl, each_nil _⟩
  · intro channelId
    by_cases hm : channelId ∈ channelIds
    · simp [Publisher.start, Setup.start, hm]
    · simp [Publisher.start, Setup.start, hm]
  · intro feedId
    simp [Publisher.start, heard]

/-- The channels are those of the configuration, throughout. -/
theorem run_channels (S : Setup β Qp Qo) (settings : StreamSettings) (channelIds : List Nat)
    (b : β) (inputs : List Input) (channelId : Nat) :
    ((run S settings inputs (start S settings channelIds b)).manager.channels channelId).isSome =
      decide (channelId ∈ channelIds) :=
  ((start_announces b).run inputs).channels channelId

end Publisher
end Announced

section Matters
variable (S : Setup β Qp Qo) (settings : StreamSettings) (channelIds : List Nat)

/-- The inputs that the manager does something for. -/
def Input.matters : Input → Bool
  | .start => true
  | .stop => false
  | .timer _ => false
  | .packet value => decide (value.channelId ∈ channelIds)

namespace Publisher
variable {S settings}

/-- No feed ever has a time that a timer could compare. -/
theorem step_lastUpdateTime {p : Publisher β Qp Qo}
    (h : ∀ feedId, (p.feeds feedId).lastUpdateTime = 0) (input : Input) :
    ∀ feedId, ((p.step S settings input).feeds feedId).lastUpdateTime = 0 := by
  intro feedId
  cases input with
  | start =>
    simp only [step]
    split
    · exact h feedId
    · exact h feedId
  | stop => exact h feedId
  | timer now =>
    simp only [step, FeedState.onTimer]
    split
    · rfl
    · exact h feedId
  | packet packet =>
    simp only [step, onPacket]
    split
    · exact h feedId
    · by_cases he : feedId = packet.feedId
      · subst he
        simp [Publisher.publishStreamStatus, FeedState.update, h]
      · simp [Publisher.publishStreamStatus, he, h]

theorem run_lastUpdateTime (inputs : List Input) {p : Publisher β Qp Qo}
    (h : ∀ feedId, (p.feeds feedId).lastUpdateTime = 0) :
    ∀ feedId, ((p.run S settings inputs).feeds feedId).lastUpdateTime = 0 := by
  induction inputs generalizing p with
  | nil => exact h
  | cons input inputs ih => exact ih (step_lastUpdateTime h input)

variable {channelIds}

theorem step_of_not_matters {p : Publisher β Qp Qo}
    (htimes : ∀ feedId, (p.feeds feedId).lastUpdateTime = 0)
    (hchannels : ∀ channelId, (p.manager.channels channelId).isSome =
      decide (channelId ∈ channelIds)) {input : Input} (h : input.matters channelIds = false) :
    p.step S settings input = p := by
  cases input with
  | start => cases h
  | stop => rfl
  | timer now =>
    have hfeeds : (fun feedId => (p.feeds feedId).onTimer settings.multicastTimeout now) =
        p.feeds := by
      funext feedId
      simp [FeedState.onTimer, htimes feedId]
    simp only [step, hfeeds]
  | packet packet =>
    have hchannel := hchannels packet.channelId
    rw [show decide (packet.channelId ∈ channelIds) = false from h] at hchannel
    simp only [step, onPacket]
    rw [Option.isSome_eq_false_iff, Option.isNone_iff_eq_none] at hchannel
    rw [hchannel]

/-- Timers, the stop and packets of other channels leave the manager alone. -/
theorem run_matters (S : Setup β Qp Qo) (settings : StreamSettings) (channelIds : List Nat)
    (b : β) (inputs : List Input) :
    run S settings inputs (start S settings channelIds b) =
      run S settings (inputs.filter (Input.matters channelIds))
        (start S settings channelIds b) := by
  induction inputs using List.reverseRecOn with
  | nil => rfl
  | append_singleton inputs input ih =>
    have hrun : run S settings (inputs ++ [input]) (start S settings channelIds b) =
        (run S settings inputs (start S settings channelIds b)).step S settings input :=
      List.foldl_append
    rw [List.filter_append, hrun]
    cases hinput : input.matters channelIds with
    | false =>
      rw [step_of_not_matters (run_lastUpdateTime inputs fun _ => rfl)
        (run_channels S settings channelIds b inputs) hinput, ih]
      simp [hinput]
    | true =>
      rw [ih]
      simp [hinput, run]

end Publisher
end Matters

end RoqCme.MarketData
