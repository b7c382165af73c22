import RoqCme.MarketData.Manager

/-! The gateway at the level of decoded messages. A delivery is one message handed to a
handler of some channel, or the sequence reset of a channel; every run of the manager over
packets is a run over deliveries (`run_refines`). -/
namespace RoqCme.MarketData
open RoqCme.Lib RoqCme.Mdp RoqCme.Tools
variable {Qp Qo : Type}

structure Feeds (Qp Qo : Type) where
  caches : Nat → Cache
  shared : Shared Qp Qo

/-- The state after construction, with the instruments of a secdef file. -/
def Feeds.ofSecDefs (env : Env Qp Qo) (items : List SecDef) : Feeds Qp Qo :=
  { caches := fun _ => {}
    shared :=
      { securityDefinitions := SecurityDefinitions.load env.discardSymbol env.mbpSequencer.init
          env.mboSequencer.init items } }

inductive Delivery where
  | incremental (channelId streamId : Nat) (frame : Frame) (message : Message)
  | sequenceReset (channelId : Nat)
  | instrumentDefinition (streamId : Nat) (frame : Frame) (message : Message)
  | mbpRecovery (streamId : Nat) (frame : Frame) (sequence : Sequence) (message : Message)
  | mbofdRecovery (streamId : Nat) (sequence : Sequence) (message : Message)
  deriving DecidableEq, Repr

def Feeds.step (env : Env Qp Qo) (f : Feeds Qp Qo) : Delivery → Feeds Qp Qo
  | .incremental channelId streamId frame message =>
    let r := Incremental.onMessage env streamId frame (f.caches channelId, f.shared) message
    ⟨Function.update f.caches channelId r.1, r.2⟩
  | .sequenceReset channelId => ⟨Function.update f.caches channelId {}, f.shared⟩
  | .instrumentDefinition streamId frame message =>
    ⟨f.caches, InstrumentDefinition.onMessage env streamId frame f.shared message⟩
  | .mbpRecovery streamId frame sequence message =>
    ⟨f.caches, MBPMarketRecovery.onMessage env streamId frame sequence f.shared message⟩
  | .mbofdRecovery streamId sequence message =>
    ⟨f.caches, MBOFDMarketRecovery.onMessage env streamId sequence f.shared message⟩

def Feeds.run (env : Env Qp Qo) (deliveries : List Delivery) (f : Feeds Qp Qo) : Feeds Qp Qo :=
  deliveries.foldl (Feeds.step env) f

theorem Feeds.run_append (env : Env Qp Qo) (xs ys : List Delivery) (f : Feeds Qp Qo) :
    Feeds.run env (xs ++ ys) f = Feeds.run env ys (Feeds.run env xs f) :=
  List.foldl_append

theorem definitionsAfter_cases (env : Env Qp Qo) (sd : SecurityDefinitions Qp Qo)
    (message : Message) : definitionsAfter env sd message = sd ∨
      ∃ value, definitionsAfter env sd message =
        sd.define env.discardSymbol env.mbpSequencer.init env.mboSequencer.init value := by
  cases message with
  | instrumentDefinition value =>
    by_cases hkind : value.kind = .future54
    · exact Or.inr ⟨value, if_pos hkind⟩
    · exact Or.inl (if_neg hkind)
  | _ => exact Or.inl rfl

/-- What a delivery can do to the shared state: nothing, the calls of a handler after a possible
definition, or a snapshot for one security. -/
theorem Feeds.step_cases (env : Env Qp Qo) (f : Feeds Qp Qo) (d : Delivery) :
    (f.step env d).shared = f.shared ∨
    (∃ sd pending fault ctx calls, (sd = f.shared.securityDefinitions ∨
        ∃ value, sd = f.shared.securityDefinitions.define env.discardSymbol env.mbpSequencer.init
          env.mboSequencer.init value) ∧
      (f.step env d).shared = performAll env ctx calls
        { f.shared with securityDefinitions := sd, pending := pending, fault := fault }) ∨
    (∃ ctx sequence value, (f.step env d).shared = f.shared.onSecurity value.securityID
      .mbpMarketRecovery (MBPMarketRecovery.snapshotFullRefresh env ctx sequence value)) ∨
    ∃ streamId sequence value, (f.step env d).shared = f.shared.onSecurity value.securityID
      .mbofdMarketRecovery
      (MBOFDMarketRecovery.snapshotFullRefreshOrderBook53 env streamId sequence value) := by
  cases d with
  | incremental channelId streamId frame message =>
    exact Or.inr (Or.inl ⟨definitionsAfter env f.shared.securityDefinitions message, _, _, _, _,
      definitionsAfter_cases env _ message, rfl⟩)
  | sequenceReset channelId => exact Or.inl rfl
  | instrumentDefinition streamId frame message =>
    simp only [Feeds.step, InstrumentDefinition.onMessage]
    split
    · split
      · exact Or.inl rfl
      · exact Or.inr (Or.inl ⟨_, f.shared.pending, f.shared.fault, _, _, Or.inr ⟨_, rfl⟩, rfl⟩)
    · exact Or.inl rfl
  | mbpRecovery streamId frame sequence message =>
    simp only [Feeds.step, MBPMarketRecovery.onMessage]
    split
    · split
      · exact Or.inr (Or.inr (Or.inl ⟨_, _, _, rfl⟩))
      · exact Or.inl rfl
    · split
      · exact Or.inr (Or.inr (Or.inl ⟨_, _, _, rfl⟩))
      · exact Or.inl rfl
    · exact Or.inl rfl
  | mbofdRecovery streamId sequence message =>
    simp only [Feeds.step, MBOFDMarketRecovery.onMessage]
    split
    · split
      · exact Or.inr (Or.inr (Or.inr ⟨_, _, _, rfl⟩))
      · exact Or.inl rfl
    · exact Or.inl rfl

section Log
variable {β P σ : Type}

/-- What the arbitration of a channel hands on. -/
inductive Handed (P : Type) where
  | parse (feed : Priority) (payload : P)
  | reset
  deriving DecidableEq, Repr

/-- The same arbitration, with a log of what it hands on in place of the handlers. -/
def Arbiter.logged (A : Arbiter β P σ) : Arbiter β P (List (Handed P)) :=
  { buffer := A.buffer, frame := A.frame
    filterSnapshotFromIncremental := A.filterSnapshotFromIncremental
    parse := fun feed payload log => log ++ [.parse feed payload]
    reset := fun log => log ++ [.reset] }

def Arbiter.hand (A : Arbiter β P σ) (s : σ) : Handed P → σ
  | .parse feed payload => A.parse feed payload s
  | .reset => A.reset s

/-- The two arbitrations agree on the channel, and replaying the log gives the handlers' state. -/
def Arbiter.Replays (A : Arbiter β P σ) (s0 : σ) (st : Channel β P × σ)
    (log : Channel β P × List (Handed P)) : Prop :=
  st.1 = log.1 ∧ st.2 = log.2.foldl A.hand s0

theorem Arbiter.Replays.eq {A : Arbiter β P σ} {s0 : σ} {st : Channel β P × σ}
    {log : Channel β P × List (Handed P)} (h : A.Replays s0 st log) :
    st = (log.1, log.2.foldl A.hand s0) :=
  Prod.ext h.1 h.2

theorem Arbiter.Replays.parseMessage {A : Arbiter β P σ} {s0 : σ} {st : Channel β P × σ}
    {log : Channel β P × List (Handed P)} (h : A.Replays s0 st log) (feed : Priority) (n : Nat)
    (p : P) : A.Replays s0 (A.parseMessage feed n p st) (A.logged.parseMessage feed n p log) := by
  obtain ⟨h1, h2⟩ := h
  constructor
  · simp only [Arbiter.parseMessage, h1]
  · simp only [Arbiter.parseMessage, Arbiter.logged, List.foldl_append, List.foldl_cons,
      List.foldl_nil, Arbiter.hand, h2]

theorem Arbiter.Replays.drain {A : Arbiter β P σ} {s0 : σ} (feed : Priority) (fuel : Nat)
    {st : Channel β P × σ} {log : Channel β P × List (Handed P)} (h : A.Replays s0 st log) :
    A.Replays s0 (A.drain feed fuel st) (A.logged.drain feed fuel log) := by
  induction fuel generalizing st log with
  | zero => exact h
  | succ fuel ih =>
    obtain rfl := h.eq
    have hb : A.logged.buffer = A.buffer := rfl
    simp only [Arbiter.drain, hb]
    split
    · split
      · next message buffer hget =>
        apply ih
        apply Arbiter.Replays.parseMessage
        exact ⟨rfl, rfl⟩
      · exact ⟨rfl, rfl⟩
    · exact ⟨rfl, rfl⟩

theorem Arbiter.Replays.receive {A : Arbiter β P σ} {s0 : σ} (feed : Priority) (p : P)
    {st : Channel β P × σ} {log : Channel β P × List (Handed P)} (h : A.Replays s0 st log) :
    A.Replays s0 (A.receive feed p st) (A.logged.receive feed p log) := by
  obtain rfl := h.eq
  have hf : A.logged.frame = A.frame := rfl
  have hd : A.logged.holdDrop = A.holdDrop := rfl
  simp only [Arbiter.receive, hf, hd]
  split
  · exact ⟨rfl, rfl⟩
  · split
    · exact ⟨rfl, rfl⟩
    · split
      · exact ⟨rfl, rfl⟩
      · apply Arbiter.Replays.parseMessage
        exact ⟨rfl, rfl⟩

theorem Arbiter.Replays.dispatch {A : Arbiter β P σ} {s0 : σ} (feed : Priority) (p : P)
    {st : Channel β P × σ} {log : Channel β P × List (Handed P)} (h : A.Replays s0 st log) :
    A.Replays s0 (A.dispatch feed p st) (A.logged.dispatch feed p log) := by
  obtain rfl := h.eq
  have ha : A.Replays s0 (log.1.arrive p, log.2.foldl A.hand s0) (log.1.arrive p, log.2) :=
    ⟨rfl, rfl⟩
  have hr := Arbiter.Replays.receive feed p ha
  have hb : A.logged.buffer = A.buffer := rfl
  simp only [Arbiter.dispatch, hb]
  split
  · rw [← hr.1]
    exact Arbiter.Replays.drain feed _ hr
  · refine ⟨rfl, ?_⟩
    simp only [Arbiter.onSequenceReset, Arbiter.logged, List.foldl_append, List.foldl_cons,
      List.foldl_nil, Arbiter.hand]

end Log

section Refinement
variable {β : Type}

/-- The messages of a packet as deliveries. -/
def Setup.parsed (S : Setup β Qp Qo) (payload : List UInt8) (f : Frame → Message → Delivery) :
    List Delivery :=
  match Frame.parse payload with
  | some frame => (S.messages payload).map (f frame)
  | none => []

def Setup.handed (S : Setup β Qp Qo) (channelId : Nat) : Handed (List UInt8) → List Delivery
  | .parse feed payload =>
    S.parsed payload (.incremental channelId (S.streamId channelId .incremental feed))
  | .reset => [.sequenceReset channelId]

/-- What one packet makes of a channel; the handlers have no part in it. -/
def Setup.arbitrate (S : Setup β Qp Qo) (packet : Packet) (channel : Channel β (List UInt8)) :
    Channel β (List UInt8) × List (Handed (List UInt8)) :=
  match packet.connectionType with
  | .incremental => (S.arbiter packet.channelId).logged.dispatch packet.priority packet.payload
      (channel, [])
  | _ => (channel, [])

def Setup.packetDeliveries (S : Setup β Qp Qo) (packet : Packet)
    (channel : Channel β (List UInt8)) : List Delivery :=
  let streamId := S.streamId packet.channelId packet.connectionType packet.priority
  match packet.connectionType with
  | .instrumentDefinition => S.parsed packet.payload (.instrumentDefinition streamId)
  | .mbpMarketRecovery =>
    S.parsed packet.payload fun frame => .mbpRecovery streamId frame channel.sequence
  | .mbofdMarketRecovery =>
    S.parsed packet.payload fun _ => .mbofdRecovery streamId channel.sequence
  | .incremental => (S.arbitrate packet channel).2.flatMap (S.handed packet.channelId)

def Manager.feeds (m : Manager β Qp Qo) : Feeds Qp Qo :=
  { caches := fun channelId =>
      match m.channels channelId with
      | some item => item.incrementalCache
      | none => {}
    shared := m.shared }

def Setup.deliveries (S : Setup β Qp Qo) (m : Manager β Qp Qo) (packet : Packet) :
    List Delivery :=
  match m.channels packet.channelId with
  | some item => S.packetDeliveries packet item.channel
  | none => []

/-- A handler that only works on the shared state. -/
theorem run_parsed (S : Setup β Qp Qo) (payload : List UInt8) (f : Frame → Message → Delivery)
    (handler : Frame → Shared Qp Qo → Message → Shared Qp Qo) (feeds : Feeds Qp Qo)
    (h : ∀ frame message g, Feeds.step S.env g (f frame message) =
      ⟨g.caches, handler frame g.shared message⟩) :
    Feeds.run S.env (S.parsed payload f) feeds =
      ⟨feeds.caches, S.parse handler payload feeds.shared⟩ := by
  cases hf : Frame.parse payload with
  | none => simp only [Setup.parsed, Setup.parse, hf, Feeds.run, List.foldl_nil]
  | some frame =>
    simp only [Setup.parsed, Setup.parse, hf]
    induction S.messages payload generalizing feeds with
    | nil => rfl
    | cons message messages ih =>
      have hstep := ih (Feeds.step S.env feeds (f frame message))
      rw [h] at hstep
      simp only [Feeds.run, List.map_cons, List.foldl_cons] at hstep ⊢
      rw [h]
      exact hstep

/-- The incremental feed of a channel works on the cache of that channel. -/
theorem run_handed (S : Setup β Qp Qo) (channelId : Nat) (x : Handed (List UInt8))
    (caches : Nat → Cache) (st : Cache × Shared Qp Qo) :
    Feeds.run S.env (S.handed channelId x) ⟨Function.update caches channelId st.1, st.2⟩ =
      ⟨Function.update caches channelId ((S.arbiter channelId).hand st x).1,
        ((S.arbiter channelId).hand st x).2⟩ := by
  cases x with
  | reset =>
    simp only [Setup.handed, Feeds.run, List.foldl_cons, List.foldl_nil, Feeds.step,
      Function.update_idem, Arbiter.hand, Setup.arbiter]
  | parse feed payload =>
    simp only [Setup.handed, Arbiter.hand, Setup.arbiter, Setup.parsed, Setup.parse]
    cases Frame.parse payload with
    | none => rfl
    | some frame =>
      simp only
      induction S.messages payload generalizing st with
      | nil => rfl
      | cons message messages ih =>
        have hstep := ih (Incremental.onMessage S.env
          (S.streamId channelId .incremental feed) frame st message)
        simp only [Feeds.run, List.map_cons, List.foldl_cons] at hstep ⊢
        rw [← hstep]
        simp only [Feeds.step, Function.update_self, Function.update_idem]

theorem run_handed_all (S : Setup β Qp Qo) (channelId : Nat) (xs : List (Handed (List UInt8)))
    (caches : Nat → Cache) (st : Cache × Shared Qp Qo) :
    Feeds.run S.env (xs.flatMap (S.handed channelId))
        ⟨Function.update caches channelId st.1, st.2⟩ =
      ⟨Function.update caches channelId (xs.foldl (S.arbiter channelId).hand st).1,
        (xs.foldl (S.arbiter channelId).hand st).2⟩ := by
  induction xs generalizing st with
  | nil => rfl
  | cons x xs ih => rw [List.flatMap_cons, Feeds.run_append, run_handed, ih, List.foldl_cons]

theorem onChannel_refines (S : Setup β Qp Qo) (packet : Packet) (item : Channel2 β)
    (caches : Nat → Cache) (shared : Shared Qp Qo)
    (hc : caches packet.channelId = item.incrementalCache) :
    (S.onChannel packet item shared).1.channel = (S.arbitrate packet item.channel).1 ∧
      Feeds.run S.env (S.packetDeliveries packet item.channel) ⟨caches, shared⟩ =
        ⟨Function.update caches packet.channelId (S.onChannel packet item shared).1.incrementalCache,
          (S.onChannel packet item shared).2⟩ := by
  have hself : Function.update caches packet.channelId item.incrementalCache = caches := by
    rw [← hc, Function.update_eq_self]
  cases ht : packet.connectionType with
  | instrumentDefinition =>
    simp only [Setup.onChannel, Setup.arbitrate, Setup.packetDeliveries, ht, hself]
    exact ⟨trivial, run_parsed S packet.payload _ _ ⟨caches, shared⟩ (fun _ _ _ => rfl)⟩
  | mbpMarketRecovery =>
    simp only [Setup.onChannel, Setup.arbitrate, Setup.packetDeliveries, ht, hself]
    exact ⟨trivial, run_parsed S packet.payload _ _ ⟨caches, shared⟩ (fun _ _ _ => rfl)⟩
  | mbofdMarketRecovery =>
    simp only [Setup.onChannel, Setup.arbitrate, Setup.packetDeliveries, ht, hself]
    exact ⟨trivial, run_parsed S packet.payload _ _ ⟨caches, shared⟩ (fun _ _ _ => rfl)⟩
  | incremental =>
    have hr : (S.arbiter packet.channelId).Replays (item.incrementalCache, shared)
        (item.channel, item.incrementalCache, shared) (item.channel, []) := ⟨rfl, rfl⟩
    have hd := Arbiter.Replays.dispatch packet.priority packet.payload hr
    have hall := run_handed_all S packet.channelId (S.arbitrate packet item.channel).2 caches
      (item.incrementalCache, shared)
    simp only [Setup.onChannel, Setup.arbitrate, Setup.packetDeliveries, ht, hself] at hall ⊢
    refine ⟨hd.1, ?_⟩
    rw [hall, hd.2]

theorem dispatch_refines (S : Setup β Qp Qo) (m : Manager β Qp Qo) (packet : Packet) :
    (S.dispatch m packet).feeds = Feeds.run S.env (S.deliveries m packet) m.feeds := by
  cases hm : m.channels packet.channelId with
  | none => simp only [Setup.dispatch, Setup.deliveries, hm, Feeds.run, List.foldl_nil]
  | some item =>
    have hc : m.feeds.caches packet.channelId = item.incrementalCache := by
      simp only [Manager.feeds, hm]
    have hr := (onChannel_refines S packet item m.feeds.caches m.feeds.shared hc).2
    simp only [Setup.dispatch, Setup.deliveries, hm]
    rw [hr]
    simp only [Manager.feeds]
    congr 1
    funext channelId
    by_cases he : channelId = packet.channelId
    · subst he
      simp only [Function.update_self]
    · simp only [Function.update_of_ne he]

/-- The deliveries of a run over packets. -/
def Setup.runDeliveries (S : Setup β Qp Qo) : List Packet → Manager β Qp Qo → List Delivery
  | [], _ => []
  | packet :: packets, m => S.deliveries m packet ++ S.runDeliveries packets (S.dispatch m packet)

/-- The manager does to the securities what its deliveries do one after the other. -/
theorem run_refines (S : Setup β Qp Qo) (packets : List Packet) (m : Manager β Qp Qo) :
    (S.run packets m).feeds = Feeds.run S.env (S.runDeliveries packets m) m.feeds := by
  induction packets generalizing m with
  | nil => rfl
  | cons packet packets ih =>
    have hstep := ih (S.dispatch m packet)
    rw [dispatch_refines] at hstep
    rw [Setup.runDeliveries, Feeds.run_append]
    exact hstep

end Refinement
end RoqCme.MarketData
