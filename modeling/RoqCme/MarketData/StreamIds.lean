import RoqCme.MarketData.Feeds
import RoqCme.MarketData.Operations

/-! The stream id of an update names the feed that brought it. Nothing else of what the handlers do
depends on it: runs whose deliveries differ in their stream ids only differ in the stream ids of
what they publish. -/
namespace RoqCme

/-- The same update under the stream id `n`. -/
def Published.onStream (n : Nat) : Published → Published
  | .referenceData value => .referenceData { value with streamId := n }
  | .marketStatus header status => .marketStatus { header with streamId := n } status
  | .topOfBook header layer updateType =>
    .topOfBook { header with streamId := n } layer updateType
  | .marketByPrice header bids asks updateType =>
    .marketByPrice { header with streamId := n } bids asks updateType
  | .marketByOrder header orders updateType =>
    .marketByOrder { header with streamId := n } orders updateType
  | .tradeSummary header trades => .tradeSummary { header with streamId := n } trades
  | .statistics header items updateType =>
    .statistics { header with streamId := n } items updateType

@[simp] theorem Published.onStream_onStream (n m : Nat) (value : Published) :
    (value.onStream m).onStream n = value.onStream n := by
  cases value <;> rfl

end RoqCme

namespace RoqCme.MarketData
open RoqCme.Mdp RoqCme.Tools
variable {Qp Qo U : Type}

def Effect.onStream (n : Nat) : Effect → Effect
  | .publish value => .publish (value.onStream n)
  | effect => effect

def Record.onStream (n : Nat) (r : Record) : Record :=
  { r with effects := r.effects.map (Effect.onStream n) }

@[simp] theorem Effect.onStream_onStream (n m : Nat) (e : Effect) :
    (e.onStream m).onStream n = e.onStream n := by
  cases e with
  | publish value => simp only [Effect.onStream, Published.onStream_onStream]
  | _ => rfl

/-- An operation that works alike on both streams; its updates name their own. -/
def AlikeOn (n : Nat) (op op' : SecurityOp Qp Qo) : Prop :=
  ∀ security, op' security = ((op security).1, (op security).2.map (Effect.onStream n))

section Callbacks

def Callbacks.onStream (n : Nat) (c : Callbacks U) : Callbacks U :=
  { c with publishSnapshot := fun content last => (c.publishSnapshot content last).onStream n }

theorem Callbacks.onSnapshotCalls_onStream (n : Nat) (c : Callbacks U)
    (calls : List (SnapshotCall U)) (mark : Nat) :
    (c.onStream n).onSnapshotCalls calls mark =
      ((c.onSnapshotCalls calls mark).1,
        (c.onSnapshotCalls calls mark).2.map (Effect.onStream n)) := by
  have hcall : ∀ call : SnapshotCall U, (c.onStream n).onSnapshotCall call =
      ((c.onSnapshotCall call).1, (c.onSnapshotCall call).2.map (Effect.onStream n)) := by
    intro call
    cases call <;> rfl
  have h : ∀ r : Nat × List Effect,
      calls.foldl (fun r call => (((c.onStream n).onSnapshotCall call).1,
          r.2 ++ ((c.onStream n).onSnapshotCall call).2)) (r.1, r.2.map (Effect.onStream n)) =
        ((calls.foldl (fun r call => ((c.onSnapshotCall call).1,
            r.2 ++ (c.onSnapshotCall call).2)) r).1,
          (calls.foldl (fun r call => ((c.onSnapshotCall call).1,
            r.2 ++ (c.onSnapshotCall call).2)) r).2.map (Effect.onStream n)) := by
    induction calls with
    | nil => intro r; rfl
    | cons call calls ih =>
      intro r
      rw [List.foldl_cons, List.foldl_cons, ← ih, hcall, List.map_append]
  exact h (mark, [])

theorem Callbacks.onUpdateCalls_onStream (n : Nat) (c : Callbacks U) (publishUpdate : U → Published)
    (calls : List (UpdateCall U)) (mark : Nat) :
    (c.onStream n).onUpdateCalls (fun content => (publishUpdate content).onStream n) calls mark =
      ((c.onUpdateCalls publishUpdate calls mark).1,
        (c.onUpdateCalls publishUpdate calls mark).2.map (Effect.onStream n)) := by
  let publish' := fun content => (publishUpdate content).onStream n
  have hcall : ∀ (m : Nat) (call : UpdateCall U),
      (c.onStream n).onUpdateCall publish' m call =
        ((c.onUpdateCall publishUpdate m call).1,
          (c.onUpdateCall publishUpdate m call).2.map (Effect.onStream n)) := by
    intro m call
    cases call with
    | publishUpdate content => rfl
    | snapshot call => cases call <;> rfl
  have h : ∀ r : Nat × List Effect,
      calls.foldl (fun r call => (((c.onStream n).onUpdateCall publish' r.1 call).1,
          r.2 ++ ((c.onStream n).onUpdateCall publish' r.1 call).2))
          (r.1, r.2.map (Effect.onStream n)) =
        ((calls.foldl (fun r call => ((c.onUpdateCall publishUpdate r.1 call).1,
            r.2 ++ (c.onUpdateCall publishUpdate r.1 call).2)) r).1,
          (calls.foldl (fun r call => ((c.onUpdateCall publishUpdate r.1 call).1,
            r.2 ++ (c.onUpdateCall publishUpdate r.1 call).2)) r).2.map (Effect.onStream n)) := by
    induction calls with
    | nil => intro r; rfl
    | cons call calls ih =>
      intro r
      rw [List.foldl_cons, List.foldl_cons, ← ih, hcall, List.map_append]
  exact h (mark, [])

theorem Callbacks.submit_onStream (n : Nat) (c : Callbacks U) (publishUpdate : U → Published)
    {Q : Type} (sequencer : Sequencer Q U) (q : Q) (resubscribe : Nat) (content : U)
    (exchangeSequence : Nat) (isSnapshot : Bool) :
    (c.onStream n).submit (fun content => (publishUpdate content).onStream n) sequencer q
        resubscribe content exchangeSequence isSnapshot =
      let r := c.submit publishUpdate sequencer q resubscribe content exchangeSequence isSnapshot
      (r.1, r.2.1, r.2.2.map (Effect.onStream n)) := by
  cases isSnapshot with
  | true =>
    simp only [submit, if_true, onSnapshotCalls_onStream]
    split
    · simp [Callbacks.onStream, Effect.onStream]
    · rfl
  | false =>
    simp only [submit, Bool.false_eq_true, if_false, onUpdateCalls_onStream]
    split
    · simp [Callbacks.onStream, Effect.onStream]
    · rfl

theorem Callbacks.recover_onStream (n : Nat) (c : Callbacks U) {Q : Type}
    (sequencer : Sequencer Q U) (q : Q) (resubscribe : Nat) (content : U)
    (exchangeSequence : Nat) (force : Bool) :
    (c.onStream n).recover sequencer q resubscribe content exchangeSequence force =
      let r := c.recover sequencer q resubscribe content exchangeSequence force
      (r.1, r.2.1, r.2.2.map (Effect.onStream n)) := by
  simp only [recover, onSnapshotCalls_onStream]
  split
  · simp [Callbacks.onStream, Effect.onStream]
  · rfl

end Callbacks

section Operations
variable (env : Env Qp Qo) (n : Nat)

theorem checkReportSequence_alike (ctx : Context) (rptSeq : Nat) :
    AlikeOn n (checkReportSequence env ctx rptSeq)
      (checkReportSequence env { ctx with streamId := n } rptSeq) := by
  intro security
  simp only [checkReportSequence]
  split
  · rfl
  · rfl

theorem dispatchMarketByPrice_alike (ctx : Context) (bids asks : List MBPUpdate)
    (isSnapshot : Bool) :
    AlikeOn n (dispatchMarketByPrice env ctx bids asks isSnapshot)
      (dispatchMarketByPrice env { ctx with streamId := n } bids asks isSnapshot) := by
  intro security
  have h := Callbacks.submit_onStream n
    { book := .mbp
      publishSnapshot := fun (levels : PriceLevels) _ =>
        .marketByPrice (ctx.header security) levels.1 levels.2 .snapshot
      mark := ctx.frame.sequenceNumber }
    (fun levels => .marketByPrice (ctx.header security) levels.1 levels.2 .incremental)
    env.mbpSequencer security.mbp.sequencer security.mbp.resubscribe (bids, asks)
    ctx.frame.sequenceNumber isSnapshot
  simp only [dispatchMarketByPrice]
  simp only [Callbacks.onStream, Published.onStream] at h
  simp only [Context.header] at h ⊢
  rw [h]
  rfl

theorem dispatchMarketByOrder_alike (ctx : Context) (orders : List MBOUpdate) (isSnapshot : Bool) :
    AlikeOn n (dispatchMarketByOrder env ctx orders isSnapshot)
      (dispatchMarketByOrder env { ctx with streamId := n } orders isSnapshot) := by
  intro security
  have h := Callbacks.submit_onStream n
    { book := .mbo
      publishSnapshot := fun (orders : List MBOUpdate) _ =>
        .marketByOrder (ctx.header security) orders .snapshot
      mark := ctx.frame.sequenceNumber }
    (fun orders => .marketByOrder (ctx.header security) orders .incremental)
    env.mboSequencer security.mbo.sequencer security.mbo.resubscribe orders
    ctx.frame.sequenceNumber isSnapshot
  simp only [dispatchMarketByOrder]
  simp only [Callbacks.onStream, Published.onStream] at h
  simp only [Context.header] at h ⊢
  rw [h]
  rfl

theorem Action.op_alike (ctx : Context) (a : Action) :
    AlikeOn n (a.op env ctx) (a.op env { ctx with streamId := n }) := by
  intro security
  cases a with
  | checkReportSequence rptSeq => exact checkReportSequence_alike env n ctx rptSeq security
  | dispatchMarketByPrice bids asks isSnapshot =>
    exact dispatchMarketByPrice_alike env n ctx bids asks isSnapshot security
  | dispatchMarketByOrder orders isSnapshot =>
    exact dispatchMarketByOrder_alike env n ctx orders isSnapshot security
  | dispatchOrderBook47 orders => exact dispatchMarketByOrder_alike env n ctx orders _ security
  | topOfBook layer => rfl
  | tradeSummary trades => rfl
  | statistics items => rfl
  | marketStatus status => rfl
  | referenceData value =>
    simp only [Action.op]
    split
    · rfl
    · rfl

theorem MBPMarketRecovery.snapshotFullRefresh_alike (ctx : Context) (sequence : Sequence)
    (value : Snapshot52) :
    AlikeOn n (snapshotFullRefresh env ctx sequence value)
      (snapshotFullRefresh env { ctx with streamId := n } sequence value) := by
  intro security
  have h := Callbacks.recover_onStream n
    { book := .mbp
      publishSnapshot := fun (levels : PriceLevels) lastSequence =>
        .marketByPrice { Context.header { ctx with exchangeTimeUtc := value.transactTime } security
          with exchangeSequence := lastSequence } levels.1 levels.2 .snapshot
      mark := value.lastMsgSeqNumProcessed }
    env.mbpSequencer security.mbp.sequencer security.mbp.resubscribe
    (levels value.noMDEntries security)
    value.lastMsgSeqNumProcessed
    (sequence.force security.mbp.resubscribe value.lastMsgSeqNumProcessed)
  simp only [Callbacks.onStream, Published.onStream] at h
  simp only [snapshotFullRefresh, MBPMarketRecovery.dispatchMarketByPrice]
  split
  · rfl
  · split
    · rfl
    · split
      · rfl
      · simp only [Context.header] at h ⊢
        rw [h]
        rfl

theorem MBOFDMarketRecovery.onChunk_alike (streamId : Nat) (sequence : Sequence)
    (value : Snapshot53) (last : Bool) :
    AlikeOn n (onChunk env streamId sequence value last) (onChunk env n sequence value last) := by
  intro security
  cases last with
  | false => rfl
  | true =>
    have h := Callbacks.recover_onStream n
      { book := .mbo
        publishSnapshot := fun (orders : List MBOUpdate) lastSequence =>
          .marketByOrder
            { streamId := streamId, exchange := security.exchange, symbol := security.symbol
              exchangeTimeUtc := 0, exchangeSequence := lastSequence, sendingTimeUtc := 0 }
            orders .snapshot
        mark := value.lastMsgSeqNumProcessed }
      env.mboSequencer security.mbo.sequencer security.mbo.resubscribe
      (security.mbo.orders ++ value.noMDEntries.map fun item => mboUpdate item security)
      value.lastMsgSeqNumProcessed
      (sequence.force security.mbo.resubscribe value.lastMsgSeqNumProcessed)
    simp only [Callbacks.onStream, Published.onStream] at h
    simp only [onChunk, if_true]
    rw [h]
    rfl

theorem MBOFDMarketRecovery.snapshotFullRefreshOrderBook53_alike (streamId : Nat)
    (sequence : Sequence) (value : Snapshot53) :
    AlikeOn n (snapshotFullRefreshOrderBook53 env streamId sequence value)
      (snapshotFullRefreshOrderBook53 env n sequence value) := by
  intro security
  have h : ∀ last, onChunk env n sequence value last = fun s =>
      ((onChunk env streamId sequence value last s).1,
        (onChunk env streamId sequence value last s).2.map (Effect.onStream n)) := by
    intro last
    funext s
    exact onChunk_alike env n streamId sequence value last s
  simp only [snapshotFullRefreshOrderBook53, Security.updateMboSnapshot, h]
  repeat' split
  all_goals rfl

end Operations

section Runs
variable (env : Env Qp Qo)

/-- The state with all updates under one stream id. -/
def Shared.anonymous (shared : Shared Qp Qo) : Shared Qp Qo :=
  { shared with trace := shared.trace.map (Record.onStream 0) }

def Feeds.anonymous (f : Feeds Qp Qo) : Feeds Qp Qo :=
  { f with shared := f.shared.anonymous }

/-- The same delivery on the stream `n`. -/
def Delivery.onStream (n : Nat) : Delivery → Delivery
  | .incremental channelId _ frame message => .incremental channelId n frame message
  | .sequenceReset channelId => .sequenceReset channelId
  | .instrumentDefinition _ frame message => .instrumentDefinition n frame message
  | .mbpRecovery _ frame sequence message => .mbpRecovery n frame sequence message
  | .mbofdRecovery _ sequence message => .mbofdRecovery n sequence message

theorem Shared.anonymous_eq_iff {s t : Shared Qp Qo} : s.anonymous = t.anonymous ↔
    s.securityDefinitions = t.securityDefinitions ∧ s.pending = t.pending ∧
      s.trace.map (Record.onStream 0) = t.trace.map (Record.onStream 0) ∧ s.fault = t.fault := by
  cases s
  cases t
  simp only [Shared.anonymous, Shared.mk.injEq]

theorem AlikeOn.records {n : Nat} {op op' : SecurityOp Qp Qo} (h : AlikeOn n op op')
    (security : Security Qp Qo) :
    (op' security).2.map (Effect.onStream 0) = (op security).2.map (Effect.onStream 0) := by
  rw [h security, List.map_map]
  apply List.map_congr_left
  intro e _
  exact Effect.onStream_onStream 0 n e

theorem onSecurity_anonymous {s t : Shared Qp Qo} (h : t.anonymous = s.anonymous)
    (securityId : Int) (site : Site) {n : Nat} {op op' : SecurityOp Qp Qo}
    (hop : AlikeOn n op op') : (t.onSecurity securityId site op').anonymous =
      (s.onSecurity securityId site op).anonymous := by
  obtain ⟨hsd, hpending, htrace, hfault⟩ := Shared.anonymous_eq_iff.1 h
  simp only [Shared.onSecurity, hsd]
  cases s.securityDefinitions.securities securityId with
  | none => exact h
  | some security =>
    refine Shared.anonymous_eq_iff.2 ⟨?_, hpending, ?_, hfault⟩
    · simp only [hop security]
    · simp only [List.map_append, htrace]
      simp only [List.map_cons, List.map_nil, Record.onStream, hop.records security]

theorem performAll_anonymous (ctx : Context) (n : Nat) (calls : List Call) {s t : Shared Qp Qo}
    (h : t.anonymous = s.anonymous) :
    (performAll env { ctx with streamId := n } calls t).anonymous =
      (performAll env ctx calls s).anonymous := by
  induction calls generalizing s t with
  | nil => exact h
  | cons call calls ih =>
    apply ih
    exact onSecurity_anonymous h call.securityId call.action.site (Action.op_alike env n ctx _)

theorem Incremental.onMessage_anonymous (streamId n : Nat) (frame : Frame) (message : Message)
    (cache : Cache) {s t : Shared Qp Qo} (h : t.anonymous = s.anonymous) :
    (Incremental.onMessage env n frame (cache, t) message).1 =
        (Incremental.onMessage env streamId frame (cache, s) message).1 ∧
      (Incremental.onMessage env n frame (cache, t) message).2.anonymous =
        (Incremental.onMessage env streamId frame (cache, s) message).2.anonymous := by
  obtain ⟨hsd, hpending, htrace, hfault⟩ := Shared.anonymous_eq_iff.1 h
  simp only [Incremental.onMessage, hsd, hpending, hfault]
  refine ⟨trivial, performAll_anonymous env ⟨streamId, frame, _⟩ n _ ?_⟩
  exact Shared.anonymous_eq_iff.2 ⟨rfl, rfl, htrace, rfl⟩

theorem Feeds.step_anonymous (d : Delivery) (n : Nat) {f g : Feeds Qp Qo}
    (h : g.anonymous = f.anonymous) :
    (g.step env (d.onStream n)).anonymous = (f.step env d).anonymous := by
  obtain ⟨hcaches, hshared⟩ := Feeds.mk.inj h
  have hcaches : g.caches = f.caches := hcaches
  obtain ⟨hsd, hpending, htrace, hfault⟩ := Shared.anonymous_eq_iff.1 hshared
  cases d with
  | incremental channelId streamId frame message =>
    obtain ⟨hc, hs⟩ := Incremental.onMessage_anonymous env streamId n frame message
      (f.caches channelId) hshared
    simp only [Delivery.onStream, Feeds.step, Feeds.anonymous, hcaches, hc, hs]
  | sequenceReset channelId =>
    simp only [Delivery.onStream, Feeds.step, Feeds.anonymous, hcaches, hshared]
  | instrumentDefinition streamId frame message =>
    simp only [Delivery.onStream, Feeds.step, Feeds.anonymous, hcaches, Feeds.mk.injEq, true_and]
    simp only [InstrumentDefinition.onMessage, hsd]
    split
    · split
      · exact hshared
      · refine performAll_anonymous env ⟨streamId, frame, 0⟩ n _ ?_
        exact Shared.anonymous_eq_iff.2 ⟨rfl, hpending, htrace, hfault⟩
    · exact hshared
  | mbpRecovery streamId frame sequence message =>
    have hop := fun value => onSecurity_anonymous hshared value.securityID .mbpMarketRecovery
      (MBPMarketRecovery.snapshotFullRefresh_alike env n ⟨streamId, frame, 0⟩ sequence value)
    simp only [Delivery.onStream, Feeds.step, Feeds.anonymous, hcaches, Feeds.mk.injEq, true_and]
    simp only [MBPMarketRecovery.onMessage, hsd]
    split
    · split
      · exact hop _
      · exact hshared
    · split
      · exact hop _
      · exact hshared
    · exact hshared
  | mbofdRecovery streamId sequence message =>
    have hop := fun value => onSecurity_anonymous hshared value.securityID .mbofdMarketRecovery
      (MBOFDMarketRecovery.snapshotFullRefreshOrderBook53_alike env n streamId sequence value)
    simp only [Delivery.onStream, Feeds.step, Feeds.anonymous, hcaches, Feeds.mk.injEq, true_and]
    simp only [MBOFDMarketRecovery.onMessage, hsd]
    split
    · split
      · exact hop _
      · exact hshared
    · exact hshared

/-- Deliveries that differ in their stream ids have the same outcome up to stream ids. -/
theorem Feeds.run_anonymous {ds es : List Delivery}
    (h : List.Forall₂ (fun d e => ∃ n, e = d.onStream n) ds es) {f g : Feeds Qp Qo}
    (hfg : g.anonymous = f.anonymous) :
    (Feeds.run env es g).anonymous = (Feeds.run env ds f).anonymous := by
  induction h generalizing f g with
  | nil => exact hfg
  | cons hd _ ih =>
    obtain ⟨n, rfl⟩ := hd
    exact ih (Feeds.step_anonymous env _ n hfg)

end Runs
end RoqCme.MarketData
