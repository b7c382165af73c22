import RoqCme.MarketData.SnapshotAssembly

/-! Integrity of assembled MBO snapshots. A run interleaves the messages of the recovery feed
for one security with the calls of the incremental feed on it; the history remembers which
messages the assembler holds and which arrived since the last resubscription. -/
namespace RoqCme.MarketData
open RoqCme.Mdp RoqCme.Tools MBOFDMarketRecovery
variable {Qp Qo : Type}

inductive SecurityEvent where
  | snapshot (call : ChunkCall)
  | incremental (ctx : Context) (action : Action)
  deriving DecidableEq, Repr

def SecurityEvent.op (env : Env Qp Qo) : SecurityEvent → SecurityOp Qp Qo
  | .snapshot c => snapshotFullRefreshOrderBook53 env c.streamId c.sequence c.value
  | .incremental ctx action => action.op env ctx

/-- History only: the messages since the latest resubscription, those whose orders the
assembler holds, and whether none of these is older than the resubscription. -/
structure AssemblyHistory where
  received : List Snapshot53 := []
  chunks : List Snapshot53 := []
  fresh : Bool := true
  deriving DecidableEq, Repr

/-- The handler looks at the message. -/
def Awaited (s : Security Qp Qo) (value : Snapshot53) : Prop :=
  s.mbo.resubscribe ≠ 0 ∧ s.mbo.resubscribe ≤ value.lastMsgSeqNumProcessed

instance (s : Security Qp Qo) (value : Snapshot53) : Decidable (Awaited s value) :=
  inferInstanceAs (Decidable (_ ∧ _))

/-- The message is taken for the next chunk of the snapshot being assembled. -/
def Continues (s : Security Qp Qo) (value : Snapshot53) : Prop :=
  Awaited s value ∧ s.mbo.noChunks ≠ 0 ∧ value.currentChunk ≠ s.mbo.lastChunk ∧
    value.currentChunk = u32 (s.mbo.lastChunk + 1)

instance (s : Security Qp Qo) (value : Snapshot53) : Decidable (Continues s value) :=
  inferInstanceAs (Decidable (_ ∧ _ ∧ _ ∧ _))

def AssemblyHistory.onSnapshot (h : AssemblyHistory) (s : Security Qp Qo) (value : Snapshot53) :
    AssemblyHistory :=
  let h := { h with received := h.received ++ [value] }
  if Continues s value then
    { h with chunks := if value.currentChunk = value.noChunks then [] else h.chunks ++ [value] }
  else if Awaited s value then
    if s.mbo.noChunks = 0 then
      if value.currentChunk = 1 then { h with chunks := [value], fresh := true } else h
    else if value.currentChunk = s.mbo.lastChunk then h
    else { h with chunks := [] }
  else h

def AssemblyHistory.step (h : AssemblyHistory) (s : Security Qp Qo) : SecurityEvent → AssemblyHistory
  | .snapshot c => h.onSnapshot s c.value
  | .incremental _ (.checkReportSequence rptSeq) =>
    if (s.updateRptSeq rptSeq).1 then { h with received := [], fresh := false } else h
  | .incremental _ _ => h

/-- The security and the history after a list of events. -/
def track (env : Env Qp Qo) (events : List SecurityEvent) (s : Security Qp Qo)
    (h : AssemblyHistory) : Security Qp Qo × AssemblyHistory :=
  events.foldl (fun st e => ((e.op env st.1).1, st.2.step st.1 e)) (s, h)

/-- A chunk that continues an assembly belongs to the snapshot being assembled: same number
of chunks, same sequence number, no resubscription since the first chunk. -/
def Matches (s : Security Qp Qo) (h : AssemblyHistory) : SecurityEvent → Prop
  | .snapshot c => Continues s c.value →
      c.value.noChunks = s.mbo.noChunks ∧ h.fresh = true ∧
        ∀ v ∈ h.chunks, v.lastMsgSeqNumProcessed = c.value.lastMsgSeqNumProcessed
  | .incremental _ _ => True

instance (s : Security Qp Qo) (h : AssemblyHistory) : DecidablePred (Matches s h)
  | .snapshot c => inferInstanceAs (Decidable (Continues s c.value → _ ∧ _ ∧ _))
  | .incremental _ _ => inferInstanceAs (Decidable True)

/-- Every step of the run meets `Matches`. -/
def AllMatch (env : Env Qp Qo) : List SecurityEvent → Security Qp Qo → AssemblyHistory → Prop
  | [], _, _ => True
  | e :: events, s, h => Matches s h e ∧ AllMatch env events (e.op env s).1 (h.step s e)

instance decidableAllMatch (env : Env Qp Qo) : ∀ (events : List SecurityEvent)
    (s : Security Qp Qo) (h : AssemblyHistory), Decidable (AllMatch env events s h)
  | [], _, _ => inferInstanceAs (Decidable True)
  | e :: events, s, h =>
    haveI := decidableAllMatch env events (e.op env s).1 (h.step s e)
    inferInstanceAs (Decidable (Matches s h e ∧ _))

/-- The orders are those of chunks `1, ..., n` of one snapshot numbered `exchangeSequence`, all
among the messages received since the latest resubscription. -/
def OneSnapshot (received : List Snapshot53) (s : Security Qp Qo) (orders : List MBOUpdate)
    (exchangeSequence : Nat) : Prop :=
  ∃ n chunks, 1 ≤ n ∧ List.Sublist chunks received ∧
    chunks.map Snapshot53.currentChunk = List.range' 1 n ∧
    (∀ v ∈ chunks, v.noChunks = n ∧ v.lastMsgSeqNumProcessed = exchangeSequence) ∧
    orders = chunks.flatMap fun v => chunkOrders v s

/-- The claim for a whole run: whatever is submitted upon a chunk is one snapshot. -/
def SnapshotsIntact (env : Env Qp Qo) (s : Security Qp Qo) (events : List SecurityEvent) : Prop :=
  ∀ before c after, events = before ++ .snapshot c :: after →
    ∀ orders exchangeSequence mode,
      .submitMbo orders exchangeSequence mode ∈
        ((SecurityEvent.snapshot c).op env (track env before s {}).1).2 →
      OneSnapshot ((track env before s {}).2.received ++ [c.value]) s orders exchangeSequence

/-- The orders collected are those of the chunks remembered, which are numbered from one. -/
structure Assembled (s0 s : Security Qp Qo) (h : AssemblyHistory) : Prop where
  instrument : SameInstrument s0 s
  assembling : Assembling s
  orders : s.mbo.orders = h.chunks.flatMap fun v => chunkOrders v s0
  empty : s.mbo.noChunks = 0 → h.chunks = []
  numbers : s.mbo.noChunks ≠ 0 →
    h.chunks.map Snapshot53.currentChunk = List.range' 1 s.mbo.lastChunk
  noChunks : ∀ v ∈ h.chunks, v.noChunks = s.mbo.noChunks
  fresh : h.fresh = true → h.chunks.Sublist h.received

theorem orders_same {s t : Security Qp Qo} (h : SameInstrument s t) (v : Snapshot53) :
    chunkOrders v t = chunkOrders v s := by
  simp only [chunkOrders, mboUpdate, h.displayFactor]

theorem op_snapshot_unawaited (env : Env Qp Qo) (s : Security Qp Qo) (c : ChunkCall)
    (h : ¬ Awaited s c.value) : (SecurityEvent.snapshot c).op env s = (s, []) := by
  have hg : s.mbo.resubscribe = 0 ∨ c.value.lastMsgSeqNumProcessed < s.mbo.resubscribe := by
    unfold Awaited at h
    omega
  simp only [SecurityEvent.op, snapshotFullRefreshOrderBook53]
  rw [if_pos hg]

theorem op_snapshot_awaited (env : Env Qp Qo) (s : Security Qp Qo) (c : ChunkCall)
    (h : Awaited s c.value) : (SecurityEvent.snapshot c).op env s = (c.feed env s).2 := by
  have hg : ¬ (s.mbo.resubscribe = 0 ∨ c.value.lastMsgSeqNumProcessed < s.mbo.resubscribe) := by
    unfold Awaited at h
    omega
  simp only [SecurityEvent.op, snapshotFullRefreshOrderBook53]
  rw [if_neg hg]
  rfl

/-- The assembler starts over. -/
theorem Assembled.reset {s0 s t : Security Qp Qo} {h : AssemblyHistory} (ha : Assembled s0 s h)
    (ht : SameInstrument s t) (received : List Snapshot53) :
    Assembled s0 t.resetChunks { h with received := received, chunks := [] } where
  instrument := ha.instrument.trans ⟨ht.exchange, ht.symbol, ht.displayFactor, ht.discard⟩
  assembling := assembling_of_noChunks rfl
  orders := rfl
  empty _ := rfl
  numbers h0 := absurd rfl h0
  noChunks v hv := by cases hv
  fresh _ := List.nil_sublist _

/-- Nothing is collected: only the list of received messages grows. -/
theorem Assembled.receive {s0 s : Security Qp Qo} {h : AssemblyHistory} (ha : Assembled s0 s h)
    (v : Snapshot53) : Assembled s0 s { h with received := h.received ++ [v] } where
  instrument := ha.instrument
  assembling := ha.assembling
  orders := ha.orders
  empty := ha.empty
  numbers := ha.numbers
  noChunks := ha.noChunks
  fresh hf := (ha.fresh hf).trans (List.sublist_append_left _ _)

/-- The first chunk of a snapshot. -/
theorem Assembled.start {s0 s t : Security Qp Qo} {h : AssemblyHistory} (ha : Assembled s0 s h)
    (v : Snapshot53) (h0 : s.mbo.noChunks = 0) (hcur : v.currentChunk = 1)
    (hr : ChunkInRange v) (ht : SameInstrument s t) (hno : t.mbo.noChunks = v.noChunks)
    (hl : t.mbo.lastChunk = 1) (ho : t.mbo.orders = s.mbo.orders ++ chunkOrders v s) :
    Assembled s0 t { received := h.received ++ [v], chunks := [v], fresh := true } where
  instrument := ha.instrument.trans ht
  assembling _ := by
    rw [hl]
    exact ⟨Nat.le_refl 1, Nat.one_lt_two_pow (by decide)⟩
  orders := by
    rw [ho, ha.orders, ha.empty h0, orders_same ha.instrument]
    simp
  empty h0' := by
    obtain ⟨h1, h2, -⟩ := hr
    omega
  numbers _ := by
    rw [hl]
    simp [hcur, List.range'_one]
  noChunks w hw := by
    rw [List.mem_singleton.1 hw]
    exact hno.symm
  fresh _ := List.sublist_append_right _ _

/-- Chunks `1, ..., lastChunk + 1` after one that continues the assembly. -/
theorem Assembled.numbers_concat {s0 s : Security Qp Qo} {h : AssemblyHistory}
    (ha : Assembled s0 s h) (v : Snapshot53) (hr : ChunkInRange v) (hc : Continues s v) :
    (h.chunks ++ [v]).map Snapshot53.currentChunk = List.range' 1 v.currentChunk := by
  obtain ⟨-, h0, -, hn⟩ := hc
  obtain ⟨h1, -, -⟩ := hr
  obtain ⟨-, hlt⟩ := ha.assembling h0
  have hcur : v.currentChunk = s.mbo.lastChunk + 1 := by
    unfold u32 at hn
    omega
  rw [List.map_append, ha.numbers h0, hcur, List.range'_1_concat, Nat.add_comm 1]
  simp [hcur]

/-- A further chunk of the same snapshot. -/
theorem Assembled.next {s0 s t : Security Qp Qo} {h : AssemblyHistory} (ha : Assembled s0 s h)
    (v : Snapshot53) (hr : ChunkInRange v) (hc : Continues s v)
    (hm : v.noChunks = s.mbo.noChunks ∧ h.fresh = true ∧
      ∀ w ∈ h.chunks, w.lastMsgSeqNumProcessed = v.lastMsgSeqNumProcessed)
    (ht : SameInstrument s t) (hno : t.mbo.noChunks = s.mbo.noChunks)
    (hl : t.mbo.lastChunk = v.currentChunk)
    (ho : t.mbo.orders = s.mbo.orders ++ chunkOrders v s) :
    Assembled s0 t
      { h with received := h.received ++ [v], chunks := h.chunks ++ [v] } where
  instrument := ha.instrument.trans ht
  assembling _ := by
    obtain ⟨h1, h2, h3⟩ := hr
    rw [hl]
    exact ⟨h1, by omega⟩
  orders := by
    rw [ho, ha.orders, orders_same ha.instrument, List.flatMap_append]
    simp
  empty h0 := by
    rw [hno] at h0
    exact absurd h0 hc.2.1
  numbers _ := by
    rw [hl]
    exact ha.numbers_concat v hr hc
  noChunks w hw := by
    rw [hno]
    cases List.mem_append.1 hw with
    | inl hw => exact ha.noChunks w hw
    | inr hw => rw [List.mem_singleton.1 hw]; exact hm.1
  fresh hf := (ha.fresh hf).append (List.Sublist.refl _)

theorem Assembled.onSnapshot (env : Env Qp Qo) {s0 s : Security Qp Qo} {h : AssemblyHistory}
    (ha : Assembled s0 s h) (c : ChunkCall) (hr : ChunkInRange c.value)
    (hm : Matches s h (.snapshot c)) :
    Assembled s0 ((SecurityEvent.snapshot c).op env s).1 (h.onSnapshot s c.value) := by
  by_cases hw : Awaited s c.value
  · rw [op_snapshot_awaited env s c hw]
    by_cases hc : Continues s c.value
    · obtain ⟨-, h0, hsame, hn⟩ := id hc
      simp only [AssemblyHistory.onSnapshot, hc, if_true]
      by_cases hl : c.value.currentChunk = c.value.noChunks
      · rw [feed_last env s c h0 hsame hn hl, if_pos hl]
        exact ha.reset (onChunk_same env c.streamId c.sequence c.value true s).1 _
      · rw [feed_next env s c h0 hsame hn hl, if_neg hl]
        exact ha.next c.value hr hc (hm hc) ⟨rfl, rfl, rfl, rfl⟩ rfl rfl rfl
    · simp only [AssemblyHistory.onSnapshot, hc, if_false, hw, if_true]
      by_cases h0 : s.mbo.noChunks = 0
      · rw [if_pos h0]
        by_cases hcur : c.value.currentChunk = 1
        · rw [feed_start env s c h0 hcur, if_pos hcur]
          have hk := onChunk_chunks env c.streamId c.sequence c.value
            (decide (1 = c.value.noChunks))
            { s with mbo := { s.mbo with noChunks := c.value.noChunks, lastChunk := 1 } }
          obtain ⟨hi, -⟩ := onChunk_same env c.streamId c.sequence c.value
            (decide (1 = c.value.noChunks))
            { s with mbo := { s.mbo with noChunks := c.value.noChunks, lastChunk := 1 } }
          exact ha.start c.value h0 hcur hr ⟨hi.exchange, hi.symbol, hi.displayFactor, hi.discard⟩
            hk.1 hk.2.1 hk.2.2.1
        · rw [feed_ignored env s c h0 hcur, if_neg hcur]
          exact ha.receive c.value
      · rw [if_neg h0]
        by_cases hsame : c.value.currentChunk = s.mbo.lastChunk
        · rw [feed_same env s c h0 hsame, if_pos hsame]
          exact ha.receive c.value
        · have hn : c.value.currentChunk ≠ u32 (s.mbo.lastChunk + 1) :=
            fun hn => hc ⟨hw, h0, hsame, hn⟩
          rw [feed_restart env s c h0 hsame hn, if_neg hsame]
          exact ha.reset (.refl s) _
  · have hc : ¬ Continues s c.value := fun hc => hw hc.1
    rw [op_snapshot_unawaited env s c hw]
    simp only [AssemblyHistory.onSnapshot, hc, if_false, hw]
    exact ha.receive c.value

theorem Assembled.incremental {s0 s t : Security Qp Qo} {h : AssemblyHistory}
    (ha : Assembled s0 s h) (hi : SameInstrument s t) (hs : SameAssembler s t) :
    Assembled s0 t h where
  instrument := ha.instrument.trans hi
  assembling h0 := by
    rw [hs.noChunks] at h0
    rw [hs.lastChunk]
    exact ha.assembling h0
  orders := by rw [hs.orders, ha.orders]
  empty h0 := ha.empty (by rw [← hs.noChunks, h0])
  numbers h0 := by
    rw [hs.noChunks] at h0
    rw [hs.lastChunk]
    exact ha.numbers h0
  noChunks := by rw [hs.noChunks]; exact ha.noChunks
  fresh := ha.fresh

/-- A resubscription makes the collected chunks stale, but the assembler keeps them. -/
theorem Assembled.resubscribe {s0 s : Security Qp Qo} {h : AssemblyHistory}
    (ha : Assembled s0 s h) : Assembled s0 s { h with received := [], fresh := false } where
  instrument := ha.instrument
  assembling := ha.assembling
  orders := ha.orders
  empty := ha.empty
  numbers := ha.numbers
  noChunks := ha.noChunks
  fresh hf := by cases hf

def SecurityEvent.InRange : SecurityEvent → Prop
  | .snapshot c => ChunkInRange c.value
  | .incremental _ _ => True

instance : DecidablePred SecurityEvent.InRange
  | .snapshot c => inferInstanceAs (Decidable (ChunkInRange c.value))
  | .incremental _ _ => inferInstanceAs (Decidable True)

theorem Assembled.step (env : Env Qp Qo) {s0 s : Security Qp Qo} {h : AssemblyHistory}
    (ha : Assembled s0 s h) (e : SecurityEvent) (hr : e.InRange) (hm : Matches s h e) :
    Assembled s0 (e.op env s).1 (h.step s e) := by
  cases e with
  | snapshot c => exact ha.onSnapshot env c hr hm
  | incremental ctx action =>
    obtain ⟨hi, hs⟩ := Action.op_same env ctx action s
    have hinc := ha.incremental hi hs
    cases action with
    | checkReportSequence rptSeq =>
      simp only [AssemblyHistory.step]
      split
      · exact hinc.resubscribe
      · exact hinc
    | _ => exact hinc

theorem track_assembled (env : Env Qp Qo) (events : List SecurityEvent) {s0 s : Security Qp Qo}
    {h : AssemblyHistory} (ha : Assembled s0 s h) (hr : ∀ e ∈ events, e.InRange)
    (hm : AllMatch env events s h) :
    Assembled s0 (track env events s h).1 (track env events s h).2 := by
  induction events generalizing s h with
  | nil => exact ha
  | cons e events ih =>
    apply ih
    · exact ha.step env e (hr e (by simp)) hm.1
    · intro e' he'
      exact hr e' (List.mem_cons_of_mem e he')
    · exact hm.2

theorem allMatch_append (env : Env Qp Qo) (xs ys : List SecurityEvent) (s : Security Qp Qo)
    (h : AssemblyHistory) (hm : AllMatch env (xs ++ ys) s h) :
    AllMatch env xs s h ∧ AllMatch env ys (track env xs s h).1 (track env xs s h).2 := by
  induction xs generalizing s h with
  | nil => exact ⟨trivial, hm⟩
  | cons e xs ih =>
    obtain ⟨h1, h2⟩ := ih _ _ hm.2
    exact ⟨⟨hm.1, h1⟩, h2⟩

/-- The last chunk submits what was collected and its own orders. -/
theorem submitted_onChunk {env : Env Qp Qo} {streamId : Nat} {sequence : Sequence}
    {value : Snapshot53} {s : Security Qp Qo} {orders : List MBOUpdate} {n : Nat} {mode : Mode}
    (h : .submitMbo orders n mode ∈ (onChunk env streamId sequence value true s).2) :
    orders = s.mbo.orders ++ chunkOrders value s ∧ n = value.lastMsgSeqNumProcessed := by
  obtain ⟨effects, he, hno⟩ := onChunk_true env streamId sequence value s
  rw [he] at h
  cases List.mem_cons.1 h with
  | inl h =>
    simp only [Effect.submitMbo.injEq] at h
    exact ⟨h.1, h.2.1⟩
  | inr h => exact absurd h (hno orders n mode)

/-- A snapshot of one chunk. -/
theorem Assembled.first_snapshot {s0 s : Security Qp Qo} {h : AssemblyHistory}
    (ha : Assembled s0 s h) (value : Snapshot53) (h0 : s.mbo.noChunks = 0)
    (hcur : value.currentChunk = 1) (hone : 1 = value.noChunks) :
    OneSnapshot (h.received ++ [value]) s0 (s.mbo.orders ++ chunkOrders value s)
      value.lastMsgSeqNumProcessed := by
  refine ⟨1, [value], Nat.le_refl 1, List.sublist_append_right _ _,
    by simp [hcur, List.range'_one], ?_, ?_⟩
  · intro v hv
    rw [List.mem_singleton.1 hv]
    exact ⟨hone.symm, rfl⟩
  · have ho : s.mbo.orders = [] := by rw [ha.orders, ha.empty h0]; rfl
    simp only [ho, List.nil_append, List.flatMap_cons, List.flatMap_nil, List.append_nil]
    exact orders_same ha.instrument value

/-- The last of several chunks, when the chunks match. -/
theorem Assembled.last_snapshot {s0 s : Security Qp Qo} {h : AssemblyHistory}
    (ha : Assembled s0 s h) {c : ChunkCall} (hr : ChunkInRange c.value)
    (hm : Matches s h (.snapshot c)) (hc : Continues s c.value)
    (hl : c.value.currentChunk = c.value.noChunks) :
    OneSnapshot (h.received ++ [c.value]) s0 (s.mbo.orders ++ chunkOrders c.value s)
      c.value.lastMsgSeqNumProcessed := by
  obtain ⟨hno, hfresh, huni⟩ := hm hc
  refine ⟨c.value.currentChunk, h.chunks ++ [c.value], hr.1,
    (ha.fresh hfresh).append (List.Sublist.refl _), ha.numbers_concat c.value hr hc, ?_, ?_⟩
  · intro v hv
    cases List.mem_append.1 hv with
    | inl hv => exact ⟨by rw [ha.noChunks v hv, ← hno, hl], huni v hv⟩
    | inr hv =>
      rw [List.mem_singleton.1 hv]
      exact ⟨hl.symm, rfl⟩
  · rw [ha.orders, orders_same ha.instrument, List.flatMap_append]
    simp

/-- What is submitted upon a chunk: the chunks collected so far together with this one. -/
theorem Assembled.submitted (env : Env Qp Qo) {s0 s : Security Qp Qo} {h : AssemblyHistory}
    (ha : Assembled s0 s h) (c : ChunkCall) (hr : ChunkInRange c.value)
    (hm : Matches s h (.snapshot c)) (orders : List MBOUpdate) (n : Nat) (mode : Mode)
    (hs : .submitMbo orders n mode ∈ ((SecurityEvent.snapshot c).op env s).2) :
    OneSnapshot (h.received ++ [c.value]) s0 orders n := by
  by_cases hw : Awaited s c.value
  · rw [op_snapshot_awaited env s c hw] at hs
    by_cases h0 : s.mbo.noChunks = 0
    · by_cases hcur : c.value.currentChunk = 1
      · rw [feed_start env s c h0 hcur] at hs
        by_cases hone : 1 = c.value.noChunks
        · rw [decide_eq_true hone] at hs
          obtain ⟨rfl, rfl⟩ := submitted_onChunk hs
          exact ha.first_snapshot c.value h0 hcur hone
        · rw [decide_eq_false hone, onChunk_false] at hs
          cases hs
      · rw [feed_ignored env s c h0 hcur] at hs
        cases hs
    · by_cases hsame : c.value.currentChunk = s.mbo.lastChunk
      · rw [feed_same env s c h0 hsame] at hs
        cases hs
      · by_cases hn : c.value.currentChunk = u32 (s.mbo.lastChunk + 1)
        · by_cases hl : c.value.currentChunk = c.value.noChunks
          · rw [feed_last env s c h0 hsame hn hl] at hs
            obtain ⟨rfl, rfl⟩ := submitted_onChunk hs
            exact ha.last_snapshot hr hm ⟨hw, h0, hsame, hn⟩ hl
          · rw [feed_next env s c h0 hsame hn hl, onChunk_false] at hs
            cases hs
        · rw [feed_restart env s c h0 hsame hn] at hs
          cases hs
  · rw [op_snapshot_unawaited env s c hw] at hs
    cases hs

/-- In every run whose chunks match the assembly they continue, every submitted snapshot is
made of the chunks of one snapshot received since the latest resubscription. -/
theorem mbo_snapshot_integrity (env : Env Qp Qo) (s : Security Qp Qo)
    (events : List SecurityEvent) (hs : Idle s) (hr : ∀ e ∈ events, e.InRange)
    (hm : AllMatch env events s {}) : SnapshotsIntact env s events := by
  intro before c after he orders n mode hsub
  subst he
  have ha : Assembled s s {} :=
    { instrument := .refl s, assembling := assembling_of_noChunks hs.1, orders := hs.2.2
      empty := fun _ => rfl, numbers := fun h0 => absurd hs.1 h0, noChunks := fun v hv => by cases hv
      fresh := fun _ => List.Sublist.refl _ }
  obtain ⟨hb, hrest⟩ := allMatch_append env before _ s {} hm
  have hb' := track_assembled env before ha (fun e he => hr e (List.mem_append_left _ he)) hb
  exact hb'.submitted env c (hr (.snapshot c) (by simp)) hrest.1 orders n mode hsub

/-- Chunk `i` of a snapshot of three chunks taken after packet `n`. -/
def chunkOfThree (i n : Nat) : SecurityEvent :=
  .snapshot ⟨1, {},
    { lastMsgSeqNumProcessed := n, noChunks := 3, currentChunk := i, securityID := 7
      noMDEntries := [⟨some n, none, 5, 1, .bid⟩] }⟩

/-- The report sequence of packet 50 makes the security wait for a snapshot. -/
def resubscribeAt50 : SecurityEvent :=
  .incremental ⟨1, ⟨50, 0⟩, 0⟩ (.checkReportSequence 5)

theorem mbo_snapshot_integrity_one_cycle :
    let s := newSecurity (none : Option Nat) (none : Option Nat) "CME" "ESZ5" (some 1) false
    SnapshotsIntact (Env.direct {}) s
      [resubscribeAt50, chunkOfThree 1 100, chunkOfThree 2 100, chunkOfThree 3 100] :=
  mbo_snapshot_integrity (Env.direct {}) _ _ ⟨rfl, rfl, rfl⟩ (by decide) (by decide +kernel)

/-- The last chunk of one cycle is lost and the last chunk of the next cycle takes its place. -/
theorem mbo_snapshot_mixes_cycles :
    let s := newSecurity (none : Option Nat) (none : Option Nat) "CME" "ESZ5" (some 1) false
    ¬ SnapshotsIntact (Env.direct {}) s
      [resubscribeAt50, chunkOfThree 1 100, chunkOfThree 2 100, chunkOfThree 3 200] := by
  intro s h
  obtain ⟨n, chunks, hn, hsub, hnum, hall, -⟩ := h
    [resubscribeAt50, chunkOfThree 1 100, chunkOfThree 2 100] _ [] rfl _ 200 _ List.mem_cons_self
  have hno : ∀ v ∈ (track (Env.direct {}) [resubscribeAt50, chunkOfThree 1 100, chunkOfThree 2 100]
      s {}).2.received ++ [⟨200, 3, 3, 7, [⟨some 200, none, 5, 1, .bid⟩]⟩],
      v.currentChunk = 1 → v.lastMsgSeqNumProcessed ≠ 200 := by
    decide +kernel
  cases chunks with
  | nil =>
    have hlen := congrArg List.length hnum
    simp only [List.map_nil, List.length_nil, List.length_range'] at hlen
    omega
  | cons v chunks =>
    obtain ⟨m, rfl⟩ := Nat.exists_eq_add_of_le' hn
    rw [List.range'_succ, List.map_cons, List.cons.injEq] at hnum
    exact hno v (hsub.subset (by simp)) hnum.1 (hall v (by simp)).2

end RoqCme.MarketData
