import RoqCme.MarketData.Recovery
import RoqCme.MarketData.Calls

/-! What the operations on one security leave alone, and which effects they have. -/
namespace RoqCme.MarketData
open RoqCme.Mdp RoqCme.Tools
variable {Qp Qo U : Type}

/-- The two states belong to the same instrument: no operation changes these fields. -/
structure SameInstrument (s t : Security Qp Qo) : Prop where
  exchange : t.exchange = s.exchange
  symbol : t.symbol = s.symbol
  displayFactor : t.displayFactor = s.displayFactor
  discard : t.discard = s.discard

theorem SameInstrument.refl (s : Security Qp Qo) : SameInstrument s s := ⟨rfl, rfl, rfl, rfl⟩

theorem SameInstrument.trans {s t u : Security Qp Qo} (h : SameInstrument s t)
    (h' : SameInstrument t u) : SameInstrument s u :=
  ⟨h'.exchange.trans h.exchange, h'.symbol.trans h.symbol,
    h'.displayFactor.trans h.displayFactor, h'.discard.trans h.discard⟩

/-- The chunk assembler is untouched. -/
structure SameAssembler (s t : Security Qp Qo) : Prop where
  noChunks : t.mbo.noChunks = s.mbo.noChunks
  lastChunk : t.mbo.lastChunk = s.mbo.lastChunk
  orders : t.mbo.orders = s.mbo.orders

/-- The effects of the callbacks of a snapshot are made of marks and publications. -/
theorem Callbacks.onSnapshotCalls_effects (c : Callbacks U) (calls : List (SnapshotCall U))
    (resubscribe : Nat) : (c.onSnapshotCalls calls resubscribe).2 =
      calls.flatMap fun call => (c.onSnapshotCall call).2 := by
  have h : ∀ (r : Nat × List Effect),
      (calls.foldl (fun r call => ((c.onSnapshotCall call).1, r.2 ++ (c.onSnapshotCall call).2))
        r).2 = r.2 ++ calls.flatMap fun call => (c.onSnapshotCall call).2 := by
    induction calls with
    | nil => intro r; simp
    | cons call calls ih =>
      intro r
      rw [List.foldl_cons, ih, List.flatMap_cons, List.append_assoc]
  rw [Callbacks.onSnapshotCalls, h, List.nil_append]

theorem Callbacks.onUpdateCalls_effects (c : Callbacks U) (publishUpdate : U → Published)
    (calls : List (UpdateCall U)) (resubscribe : Nat) :
    (c.onUpdateCalls publishUpdate calls resubscribe).2 =
      calls.flatMap fun call => (c.onUpdateCall publishUpdate 0 call).2 := by
  have h0 : ∀ (m : Nat) (call : UpdateCall U), (c.onUpdateCall publishUpdate m call).2 =
      (c.onUpdateCall publishUpdate 0 call).2 := by
    intro m call
    cases call with
    | publishUpdate content => rfl
    | snapshot call => rfl
  have h : ∀ (r : Nat × List Effect),
      (calls.foldl (fun r call => ((c.onUpdateCall publishUpdate r.1 call).1,
        r.2 ++ (c.onUpdateCall publishUpdate r.1 call).2)) r).2 =
        r.2 ++ calls.flatMap fun call => (c.onUpdateCall publishUpdate 0 call).2 := by
    induction calls with
    | nil => intro r; simp
    | cons call calls ih =>
      intro r
      rw [List.foldl_cons, ih, List.flatMap_cons, h0, List.append_assoc]
  rw [Callbacks.onUpdateCalls, h, List.nil_append]

/-- A reaction to a submission: a mark, a cleared sequencer or a publication of the book. -/
inductive Callbacks.Follows (c : Callbacks U) (publishUpdate : U → Published) : Effect → Prop where
  | update (content : U) : c.Follows publishUpdate (.publish (publishUpdate content))
  | snapshot (content : U) (n : Nat) :
    c.Follows publishUpdate (.publish (c.publishSnapshot content n))
  | mark (n : Nat) : c.Follows publishUpdate (.resubscribe c.book n)
  | clear : c.Follows publishUpdate (.clear c.book)

theorem Callbacks.onSnapshotCall_follows (c : Callbacks U) (publishUpdate : U → Published)
    (call : SnapshotCall U) : ∀ e ∈ (c.onSnapshotCall call).2, c.Follows publishUpdate e := by
  intro e he
  cases call with
  | publishSnapshot content n m =>
    simp only [onSnapshotCall, List.mem_cons, List.not_mem_nil, or_false] at he
    cases he with
    | inl he => rw [he]; exact .snapshot content m
    | inr he => rw [he]; exact .mark 0
  | requestSnapshot retries =>
    simp only [onSnapshotCall, List.mem_singleton] at he
    rw [he]
    exact .mark c.mark

theorem Callbacks.onUpdateCall_follows (c : Callbacks U) (publishUpdate : U → Published)
    (call : UpdateCall U) :
    ∀ e ∈ (c.onUpdateCall publishUpdate 0 call).2, c.Follows publishUpdate e := by
  intro e he
  cases call with
  | publishUpdate content =>
    simp only [onUpdateCall, List.mem_singleton] at he
    rw [he]
    exact .update content
  | snapshot call => exact c.onSnapshotCall_follows publishUpdate call e he

theorem Callbacks.onSnapshotCalls_follows (c : Callbacks U) (publishUpdate : U → Published)
    (calls : List (SnapshotCall U)) (resubscribe : Nat) :
    ∀ e ∈ (c.onSnapshotCalls calls resubscribe).2, c.Follows publishUpdate e := by
  intro e he
  rw [onSnapshotCalls_effects] at he
  obtain ⟨call, -, hm⟩ := List.mem_flatMap.1 he
  exact c.onSnapshotCall_follows publishUpdate call e hm

theorem Callbacks.onUpdateCalls_follows (c : Callbacks U) (publishUpdate : U → Published)
    (calls : List (UpdateCall U)) (resubscribe : Nat) :
    ∀ e ∈ (c.onUpdateCalls publishUpdate calls resubscribe).2, c.Follows publishUpdate e := by
  intro e he
  rw [onUpdateCalls_effects] at he
  obtain ⟨call, -, hm⟩ := List.mem_flatMap.1 he
  exact c.onUpdateCall_follows publishUpdate call e hm

theorem Callbacks.submit_follows (c : Callbacks U) (publishUpdate : U → Published) {Q : Type}
    (sequencer : Sequencer Q U) (q : Q) (resubscribe : Nat) (content : U)
    (exchangeSequence : Nat) (isSnapshot : Bool) :
    ∀ e ∈ (c.submit publishUpdate sequencer q resubscribe content exchangeSequence isSnapshot).2.2,
      c.Follows publishUpdate e := by
  have hs := fun calls => c.onSnapshotCalls_follows publishUpdate calls resubscribe
  have hu := fun calls => c.onUpdateCalls_follows publishUpdate calls resubscribe
  have hbad : ∀ effects : List Effect, (∀ e ∈ effects, c.Follows publishUpdate e) →
      ∀ e ∈ effects ++ [.clear c.book, .resubscribe c.book exchangeSequence],
        c.Follows publishUpdate e := by
    intro effects h e he
    simp only [List.mem_append, List.mem_cons, List.not_mem_nil, or_false] at he
    obtain he | he | he := he
    · exact h e he
    · rw [he]; exact .clear
    · rw [he]; exact .mark exchangeSequence
  intro e he
  cases isSnapshot with
  | true =>
    simp only [submit, if_true] at he
    split at he
    · exact hbad _ (hs _) e he
    · exact hs _ e he
  | false =>
    simp only [submit, Bool.false_eq_true, if_false] at he
    split at he
    · exact hbad _ (hu _) e he
    · exact hu _ e he

/-- A recovery feed publishes snapshots only. -/
theorem Callbacks.recover_follows (c : Callbacks U) {Q : Type} (sequencer : Sequencer Q U) (q : Q)
    (resubscribe : Nat) (content : U) (exchangeSequence : Nat) (force : Bool) :
    ∀ e ∈ (c.recover sequencer q resubscribe content exchangeSequence force).2.2,
      c.Follows (fun content => c.publishSnapshot content 0) e := by
  have hs := fun calls => c.onSnapshotCalls_follows (fun content => c.publishSnapshot content 0)
    calls resubscribe
  intro e he
  simp only [recover] at he
  split at he
  · cases List.mem_append.1 he with
    | inl he => exact hs _ e he
    | inr he => rw [List.mem_singleton.1 he]; exact .clear
  · exact hs _ e he

theorem checkReportSequence_same (env : Env Qp Qo) (ctx : Context) (rptSeq : Nat)
    (s : Security Qp Qo) :
    SameInstrument s (checkReportSequence env ctx rptSeq s).1 ∧
      SameAssembler s (checkReportSequence env ctx rptSeq s).1 := by
  by_cases h0 : rptSeq = 0
  · simp only [checkReportSequence, Security.updateRptSeq, h0, if_true, Bool.false_eq_true, if_false]
    exact ⟨.refl s, ⟨rfl, rfl, rfl⟩⟩
  · simp only [checkReportSequence, Security.updateRptSeq, h0, if_false]
    split
    · exact ⟨⟨rfl, rfl, rfl, rfl⟩, ⟨rfl, rfl, rfl⟩⟩
    · exact ⟨⟨rfl, rfl, rfl, rfl⟩, ⟨rfl, rfl, rfl⟩⟩

/-- The incremental feed touches neither the instrument nor the chunk assembler. -/
theorem Action.op_same (env : Env Qp Qo) (ctx : Context) (a : Action) (s : Security Qp Qo) :
    SameInstrument s (a.op env ctx s).1 ∧ SameAssembler s (a.op env ctx s).1 := by
  cases a with
  | checkReportSequence rptSeq => exact checkReportSequence_same env ctx rptSeq s
  | topOfBook | tradeSummary | statistics | marketStatus | referenceData =>
    exact ⟨.refl s, ⟨rfl, rfl, rfl⟩⟩
  | dispatchMarketByPrice | dispatchMarketByOrder | dispatchOrderBook47 =>
    exact ⟨⟨rfl, rfl, rfl, rfl⟩, ⟨rfl, rfl, rfl⟩⟩

theorem MBPMarketRecovery.snapshotFullRefresh_same (env : Env Qp Qo) (ctx : Context)
    (sequence : Sequence) (value : Snapshot52) (s : Security Qp Qo) :
    SameInstrument s (snapshotFullRefresh env ctx sequence value s).1 ∧
      (snapshotFullRefresh env ctx sequence value s).1.rptSeq = s.rptSeq := by
  unfold snapshotFullRefresh
  split
  · exact ⟨.refl s, rfl⟩
  · simp only
    split
    · exact ⟨.refl s, rfl⟩
    · unfold dispatchMarketByPrice
      split
      · exact ⟨.refl s, rfl⟩
      · exact ⟨⟨rfl, rfl, rfl, rfl⟩, rfl⟩

theorem MBOFDMarketRecovery.onChunk_same (env : Env Qp Qo) (streamId : Nat) (sequence : Sequence)
    (value : Snapshot53) (last : Bool) (s : Security Qp Qo) :
    SameInstrument s (onChunk env streamId sequence value last s).1 ∧
      (onChunk env streamId sequence value last s).1.rptSeq = s.rptSeq := by
  cases last with
  | false => exact ⟨⟨rfl, rfl, rfl, rfl⟩, rfl⟩
  | true => exact ⟨⟨rfl, rfl, rfl, rfl⟩, rfl⟩

theorem MBOFDMarketRecovery.snapshotFullRefreshOrderBook53_same (env : Env Qp Qo) (streamId : Nat)
    (sequence : Sequence) (value : Snapshot53) (s : Security Qp Qo) :
    SameInstrument s (snapshotFullRefreshOrderBook53 env streamId sequence value s).1 ∧
      (snapshotFullRefreshOrderBook53 env streamId sequence value s).1.rptSeq = s.rptSeq := by
  have hc := fun last t => onChunk_same env streamId sequence value last t
  have hreset : ∀ t : Security Qp Qo, SameInstrument s t ∧ t.rptSeq = s.rptSeq →
      SameInstrument s t.resetChunks ∧ t.resetChunks.rptSeq = s.rptSeq := by
    rintro t ⟨h, hr⟩
    exact ⟨⟨h.exchange, h.symbol, h.displayFactor, h.discard⟩, hr⟩
  have hset : ∀ (last : Bool) (t : Security Qp Qo), SameInstrument s t → t.rptSeq = s.rptSeq →
      SameInstrument s (onChunk env streamId sequence value last t).1 ∧
        (onChunk env streamId sequence value last t).1.rptSeq = s.rptSeq := by
    intro last t h hr
    exact ⟨h.trans (hc last t).1, (hc last t).2.trans hr⟩
  unfold snapshotFullRefreshOrderBook53
  split
  · exact ⟨.refl s, rfl⟩
  · unfold Security.updateMboSnapshot
    split
    · split
      · exact ⟨.refl s, rfl⟩
      · split
        · split
          · exact hreset _ (hset true s (.refl s) rfl)
          · exact hset false _ ⟨rfl, rfl, rfl, rfl⟩ rfl
        · exact hreset s ⟨.refl s, rfl⟩
    · split
      · exact hset _ _ ⟨rfl, rfl, rfl, rfl⟩ rfl
      · exact ⟨.refl s, rfl⟩

/-- What can follow a submission to the sequencer of a book: a publication that is not stale, a
mark or a cleared sequencer. -/
inductive Echo : Book → Effect → Prop where
  | price (header : Header) (bids asks : List MBPUpdate) (updateType : UpdateType)
      (h : updateType ≠ .stale) : Echo .mbp (.publish (.marketByPrice header bids asks updateType))
  | order (header : Header) (orders : List MBOUpdate) (updateType : UpdateType)
      (h : updateType ≠ .stale) : Echo .mbo (.publish (.marketByOrder header orders updateType))
  | mark (book : Book) (n : Nat) : Echo book (.resubscribe book n)
  | clear (book : Book) : Echo book (.clear book)

theorem Callbacks.Follows.echo {c : Callbacks U} {publishUpdate : U → Published} {e : Effect}
    (h : c.Follows publishUpdate e)
    (hu : ∀ content, Echo c.book (.publish (publishUpdate content)))
    (hs : ∀ content n, Echo c.book (.publish (c.publishSnapshot content n))) : Echo c.book e := by
  cases h with
  | update content => exact hu content
  | snapshot content n => exact hs content n
  | mark n => exact .mark c.book n
  | clear => exact .clear c.book

/-- A price update is one submission, followed by what the sequencer calls back for. -/
theorem dispatchMarketByPrice_eq (env : Env Qp Qo) (ctx : Context) (bids asks : List MBPUpdate)
    (isSnapshot : Bool) (s : Security Qp Qo) :
    ∃ echoes, (∀ e ∈ echoes, Echo .mbp e) ∧
      (dispatchMarketByPrice env ctx bids asks isSnapshot s).2 =
        .submitMbp (bids, asks) ctx.frame.sequenceNumber (Mode.ofSnapshot isSnapshot
          (env.mbpSequencer.lastSequence s.mbp.sequencer)) :: echoes := by
  refine ⟨_, ?_, rfl⟩
  intro e he
  refine (Callbacks.submit_follows _ _ _ _ _ _ _ _ e he).echo ?_ ?_
  · intro levels
    exact .price _ _ _ _ UpdateType.noConfusion
  · intro levels n
    exact .price _ _ _ _ UpdateType.noConfusion

theorem dispatchMarketByPrice_effects (env : Env Qp Qo) (ctx : Context) (bids asks : List MBPUpdate)
    (isSnapshot : Bool) (s : Security Qp Qo) :
    ∀ e ∈ (dispatchMarketByPrice env ctx bids asks isSnapshot s).2,
      (∃ levels n mode, e = .submitMbp levels n mode) ∨ Echo .mbp e := by
  obtain ⟨echoes, hecho, heq⟩ := dispatchMarketByPrice_eq env ctx bids asks isSnapshot s
  rw [heq]
  intro e he
  cases List.mem_cons.1 he with
  | inl he => exact Or.inl ⟨_, _, _, he⟩
  | inr he => exact Or.inr (hecho e he)

theorem dispatchMarketByOrder_eq (env : Env Qp Qo) (ctx : Context) (orders : List MBOUpdate)
    (isSnapshot : Bool) (s : Security Qp Qo) :
    ∃ echoes, (∀ e ∈ echoes, Echo .mbo e) ∧
      (dispatchMarketByOrder env ctx orders isSnapshot s).2 =
        .submitMbo orders ctx.frame.sequenceNumber (Mode.ofSnapshot isSnapshot
          (env.mboSequencer.lastSequence s.mbo.sequencer)) :: echoes := by
  refine ⟨_, ?_, rfl⟩
  intro e he
  refine (Callbacks.submit_follows _ _ _ _ _ _ _ _ e he).echo ?_ ?_
  · intro orders
    exact .order _ _ _ UpdateType.noConfusion
  · intro orders n
    exact .order _ _ _ UpdateType.noConfusion

theorem dispatchMarketByOrder_effects (env : Env Qp Qo) (ctx : Context) (orders : List MBOUpdate)
    (isSnapshot : Bool) (s : Security Qp Qo) :
    ∀ e ∈ (dispatchMarketByOrder env ctx orders isSnapshot s).2,
      (∃ orders n mode, e = .submitMbo orders n mode) ∨ Echo .mbo e := by
  obtain ⟨echoes, hecho, heq⟩ := dispatchMarketByOrder_eq env ctx orders isSnapshot s
  rw [heq]
  intro e he
  cases List.mem_cons.1 he with
  | inl he => exact Or.inl ⟨_, _, _, he⟩
  | inr he => exact Or.inr (hecho e he)

/-- A recovery feed acts on a security that waits, for a snapshot not older than its mark. -/
theorem MBPMarketRecovery.snapshotFullRefresh_effects (env : Env Qp Qo) (ctx : Context)
    (sequence : Sequence) (value : Snapshot52) (s : Security Qp Qo) :
    ∀ e ∈ (snapshotFullRefresh env ctx sequence value s).2,
      (s.mbp.resubscribe ≠ 0 ∧ s.mbp.resubscribe ≤ value.lastMsgSeqNumProcessed) ∧
        ((∃ levels, e = .submitMbp levels value.lastMsgSeqNumProcessed
            (.snapshot (sequence.force s.mbp.resubscribe value.lastMsgSeqNumProcessed))) ∨
          Echo .mbp e) := by
  intro e he
  unfold snapshotFullRefresh at he
  split at he
  · cases he
  · next hw =>
    simp only [not_or, Nat.not_lt] at hw
    refine ⟨hw, ?_⟩
    simp only at he
    split at he
    · cases he
    · unfold dispatchMarketByPrice at he
      split at he
      · cases he
      · cases List.mem_cons.1 he with
        | inl he => exact Or.inl ⟨_, he⟩
        | inr he =>
          right
          refine (Callbacks.recover_follows _ _ _ _ _ _ _ e he).echo ?_ ?_
          · intro levels
            exact .price _ _ _ _ UpdateType.noConfusion
          · intro levels n
            exact .price _ _ _ _ UpdateType.noConfusion

theorem MBOFDMarketRecovery.onChunk_effects (env : Env Qp Qo) (streamId : Nat)
    (sequence : Sequence) (value : Snapshot53) (last : Bool) (s : Security Qp Qo) :
    ∀ e ∈ (onChunk env streamId sequence value last s).2,
      (∃ orders, e = .submitMbo orders value.lastMsgSeqNumProcessed
          (.snapshot (sequence.force s.mbo.resubscribe value.lastMsgSeqNumProcessed))) ∨
        Echo .mbo e := by
  intro e he
  cases last with
  | false => cases he
  | true =>
    cases List.mem_cons.1 he with
    | inl he => exact Or.inl ⟨_, he⟩
    | inr he =>
      right
      refine (Callbacks.recover_follows _ _ _ _ _ _ _ e he).echo ?_ ?_
      · intro orders
        exact .order _ _ _ UpdateType.noConfusion
      · intro orders n
        exact .order _ _ _ UpdateType.noConfusion

/-- The assembler only acts through its callback, which finds the mark as it was. -/
theorem updateMboSnapshot_effects (s : Security Qp Qo) (currentChunk noChunks : Nat)
    (callback : Bool → SecurityOp Qp Qo) :
    ∀ e ∈ (s.updateMboSnapshot currentChunk noChunks callback).2.2,
      ∃ last t, e ∈ (callback last t).2 ∧ t.mbo.resubscribe = s.mbo.resubscribe := by
  intro e he
  unfold Security.updateMboSnapshot at he
  split at he
  · split at he
    · cases he
    · split at he
      · split at he
        · exact ⟨true, s, he, rfl⟩
        · exact ⟨false, _, he, rfl⟩
      · cases he
  · split at he
    · exact ⟨_, _, he, rfl⟩
    · cases he

theorem MBOFDMarketRecovery.snapshotFullRefreshOrderBook53_effects (env : Env Qp Qo)
    (streamId : Nat) (sequence : Sequence) (value : Snapshot53) (s : Security Qp Qo) :
    ∀ e ∈ (snapshotFullRefreshOrderBook53 env streamId sequence value s).2,
      (s.mbo.resubscribe ≠ 0 ∧ s.mbo.resubscribe ≤ value.lastMsgSeqNumProcessed) ∧
        ((∃ orders, e = .submitMbo orders value.lastMsgSeqNumProcessed
            (.snapshot (sequence.force s.mbo.resubscribe value.lastMsgSeqNumProcessed))) ∨
          Echo .mbo e) := by
  intro e he
  unfold snapshotFullRefreshOrderBook53 at he
  split at he
  · cases he
  · next hw =>
    simp only [not_or, Nat.not_lt] at hw
    obtain ⟨last, t, hm, ht⟩ := updateMboSnapshot_effects s _ _ _ e he
    have hchunk := onChunk_effects env streamId sequence value last t e hm
    rw [ht] at hchunk
    exact ⟨hw, hchunk⟩

end RoqCme.MarketData
