import RoqCme.Tools.ChunkAssembler
import RoqCme.MarketData.Operations

/-! Assembly of the chunks of an MBO snapshot: which chunks are collected, when a snapshot is
complete, and from which states the assembler recovers. -/
namespace RoqCme.MarketData
open RoqCme.Mdp RoqCme.Tools MBOFDMarketRecovery
variable {Qp Qo : Type}

/-- The chunks of the message as orders of the security. -/
def chunkOrders (value : Snapshot53) (security : Security Qp Qo) : List MBOUpdate :=
  value.noMDEntries.map fun item => mboUpdate item security

/-- `1 <= currentChunk <= noChunks`, and `noChunks` is a uint32. -/
def ChunkInRange (value : Snapshot53) : Prop :=
  1 ≤ value.currentChunk ∧ value.currentChunk ≤ value.noChunks ∧ value.noChunks < 2 ^ 32

instance (value : Snapshot53) : Decidable (ChunkInRange value) :=
  inferInstanceAs (Decidable (_ ∧ _ ∧ _))

/-- The assembler is as after construction. -/
def Idle (s : Security Qp Qo) : Prop :=
  s.mbo.noChunks = 0 ∧ s.mbo.lastChunk = 0 ∧ s.mbo.orders = []

theorem idle_resetChunks (s : Security Qp Qo) : Idle s.resetChunks := ⟨rfl, rfl, rfl⟩

theorem onChunk_false (env : Env Qp Qo) (streamId : Nat) (sequence : Sequence)
    (value : Snapshot53) (s : Security Qp Qo) :
    onChunk env streamId sequence value false s =
      ({ s with mbo := { s.mbo with orders := s.mbo.orders ++ chunkOrders value s } }, []) :=
  rfl

/-- With the last chunk everything collected is submitted, once and first of all effects. -/
theorem onChunk_true (env : Env Qp Qo) (streamId : Nat) (sequence : Sequence)
    (value : Snapshot53) (s : Security Qp Qo) :
    ∃ effects, (onChunk env streamId sequence value true s).2 =
        .submitMbo (s.mbo.orders ++ chunkOrders value s) value.lastMsgSeqNumProcessed
          (.snapshot (sequence.force s.mbo.resubscribe value.lastMsgSeqNumProcessed)) :: effects ∧
      ∀ orders n mode, .submitMbo orders n mode ∉ effects := by
  refine ⟨_, rfl, ?_⟩
  intro orders n mode hm
  have hf := Callbacks.recover_follows _ _ _ _ _ _ _ _ hm
  cases hf

/-- The callback leaves everything but the orders, the sequencer and its mark alone. -/
theorem onChunk_chunks (env : Env Qp Qo) (streamId : Nat) (sequence : Sequence)
    (value : Snapshot53) (last : Bool) (s : Security Qp Qo) :
    (onChunk env streamId sequence value last s).1.mbo.noChunks = s.mbo.noChunks ∧
      (onChunk env streamId sequence value last s).1.mbo.lastChunk = s.mbo.lastChunk ∧
      (onChunk env streamId sequence value last s).1.mbo.orders =
        s.mbo.orders ++ chunkOrders value s ∧
      (onChunk env streamId sequence value last s).1.displayFactor = s.displayFactor := by
  cases last with
  | false => exact ⟨rfl, rfl, rfl, rfl⟩
  | true => exact ⟨rfl, rfl, rfl, rfl⟩

/-- One call of `update_mbo_snapshot` by the recovery feed. -/
structure ChunkCall where
  streamId : Nat
  sequence : Sequence
  value : Snapshot53
  deriving DecidableEq, Repr

/-- What the call returned, the security after it and its effects. -/
abbrev ChunkResult (Qp Qo : Type) := Bool × Security Qp Qo × List Effect

def ChunkCall.feed (env : Env Qp Qo) (s : Security Qp Qo) (c : ChunkCall) : ChunkResult Qp Qo :=
  s.updateMboSnapshot c.value.currentChunk c.value.noChunks
    (onChunk env c.streamId c.sequence c.value)

/-- The callback ran with `last = true`: only then something is submitted. -/
def Completed (r : ChunkResult Qp Qo) : Prop :=
  ∃ orders exchangeSequence mode, .submitMbo orders exchangeSequence mode ∈ r.2.2

theorem completed_of_effects {r : ChunkResult Qp Qo} {orders : List MBOUpdate} {n : Nat}
    {mode : Mode} {effects : List Effect} (h : r.2.2 = .submitMbo orders n mode :: effects) :
    Completed r :=
  ⟨orders, n, mode, by rw [h]; exact List.mem_cons_self⟩

section Feed
variable (env : Env Qp Qo) (s : Security Qp Qo) (c : ChunkCall)

theorem feed_same (h0 : s.mbo.noChunks ≠ 0) (h : c.value.currentChunk = s.mbo.lastChunk) :
    c.feed env s = (false, s, []) :=
  Security.update_same h0 h

theorem feed_restart (h0 : s.mbo.noChunks ≠ 0) (h : c.value.currentChunk ≠ s.mbo.lastChunk)
    (hn : c.value.currentChunk ≠ u32 (s.mbo.lastChunk + 1)) :
    c.feed env s = (false, s.resetChunks, []) :=
  Security.update_restart h0 h hn

theorem feed_ignored (h0 : s.mbo.noChunks = 0) (h : c.value.currentChunk ≠ 1) :
    c.feed env s = (false, s, []) :=
  Security.update_ignored h0 h

theorem feed_start (h0 : s.mbo.noChunks = 0) (h : c.value.currentChunk = 1) :
    c.feed env s = (false, onChunk env c.streamId c.sequence c.value (decide (1 = c.value.noChunks))
      { s with mbo := { s.mbo with noChunks := c.value.noChunks, lastChunk := 1 } }) :=
  Security.update_start h0 h

theorem feed_next (h0 : s.mbo.noChunks ≠ 0) (h : c.value.currentChunk ≠ s.mbo.lastChunk)
    (hn : c.value.currentChunk = u32 (s.mbo.lastChunk + 1))
    (hl : c.value.currentChunk ≠ c.value.noChunks) :
    c.feed env s = (false, onChunk env c.streamId c.sequence c.value false
      { s with mbo := { s.mbo with lastChunk := c.value.currentChunk } }) :=
  Security.update_next h0 h hn hl

theorem feed_last (h0 : s.mbo.noChunks ≠ 0) (h : c.value.currentChunk ≠ s.mbo.lastChunk)
    (hn : c.value.currentChunk = u32 (s.mbo.lastChunk + 1))
    (hl : c.value.currentChunk = c.value.noChunks) :
    c.feed env s = (true, (onChunk env c.streamId c.sequence c.value true s).1.resetChunks,
      (onChunk env c.streamId c.sequence c.value true s).2) :=
  Security.update_last h0 h hn hl

end Feed

/-- While chunks are collected, `last_chunk` is one of the numbers received. -/
def Assembling (s : Security Qp Qo) : Prop :=
  s.mbo.noChunks ≠ 0 → 1 ≤ s.mbo.lastChunk ∧ s.mbo.lastChunk < 2 ^ 32

theorem assembling_of_noChunks {s : Security Qp Qo} (h : s.mbo.noChunks = 0) : Assembling s :=
  fun h0 => absurd h h0

theorem feed_step (env : Env Qp Qo) (s : Security Qp Qo) (c : ChunkCall) :
    ChunkStep s c.value.currentChunk c.value.noChunks (onChunk env c.streamId c.sequence c.value)
      (c.feed env s) :=
  s.updateMboSnapshot_step _ _ _

theorem feed_assembling (env : Env Qp Qo) (s : Security Qp Qo) (c : ChunkCall)
    (h : Assembling s) (hc : ChunkInRange c.value) : Assembling (c.feed env s).2.1 := by
  obtain ⟨h1, hle, hlt⟩ := hc
  have hstep := feed_step env s c
  generalize c.feed env s = r at hstep
  cases hstep with
  | same _ _ => exact h
  | last _ _ _ _ => exact assembling_of_noChunks rfl
  | next _ _ _ _ =>
    intro _
    rw [(onChunk_chunks env c.streamId c.sequence c.value false _).2.1]
    exact ⟨h1, by simp only; omega⟩
  | restart _ _ _ => exact assembling_of_noChunks rfl
  | start _ _ =>
    intro _
    rw [(onChunk_chunks env c.streamId c.sequence c.value _ _).2.1]
    exact ⟨Nat.le_refl 1, Nat.one_lt_two_pow (by decide)⟩
  | ignored _ _ => exact h

/-- The results of a list of calls, in order. -/
def deliver (env : Env Qp Qo) : Security Qp Qo → List ChunkCall → List (ChunkResult Qp Qo)
  | _, [] => []
  | s, c :: calls => c.feed env s :: deliver env (c.feed env s).2.1 calls

def afterCalls (env : Env Qp Qo) (s : Security Qp Qo) (calls : List ChunkCall) : Security Qp Qo :=
  calls.foldl (fun s c => (c.feed env s).2.1) s

theorem afterCalls_assembling (env : Env Qp Qo) (s : Security Qp Qo) (calls : List ChunkCall)
    (h : Assembling s) (hc : ∀ c ∈ calls, ChunkInRange c.value) :
    Assembling (afterCalls env s calls) := by
  induction calls generalizing s with
  | nil => exact h
  | cons c calls ih =>
    apply ih
    · exact feed_assembling env s c h (hc c (by simp))
    · intro c' hc'
      exact hc c' (List.mem_cons_of_mem c hc')

/-- The call as the assembler sees it. -/
def ChunkCall.chunk (s : Security Qp Qo) (c : ChunkCall) (h : ChunkInRange c.value) : Chunk where
  currentChunk := c.value.currentChunk
  noChunks := c.value.noChunks
  entries := chunkOrders c.value s
  first := h.1
  last := h.2.1
  width := h.2.2

theorem chunkOrders_congr {s t : Security Qp Qo} (h : t.displayFactor = s.displayFactor)
    (value : Snapshot53) : chunkOrders value t = chunkOrders value s := by
  simp only [chunkOrders, mboUpdate, h]

/-- The recovery feed uses the assembler with a callback that appends the entries. -/
theorem feed_chunk (env : Env Qp Qo) {s0 s t : Security Qp Qo} (c : ChunkCall)
    (hc : ChunkInRange c.value) (hf : s.displayFactor = s0.displayFactor)
    (h : SameAssembler s t) :
    SameAssembler (c.feed env s).2.1 ((c.chunk s0 hc).update t).2.1 ∧
      (c.feed env s).2.1.displayFactor = s0.displayFactor := by
  have happend : ∀ last (s' t' : Security Qp Qo), s'.displayFactor = s.displayFactor →
      SameAssembler s' t' →
      SameAssembler (onChunk env c.streamId c.sequence c.value last s').1
          ((c.chunk s0 hc).append last t').1 ∧
        (onChunk env c.streamId c.sequence c.value last s').1.displayFactor =
          s0.displayFactor := by
    intro last s' t' hs' ht'
    obtain ⟨hno, hl, ho, hd⟩ := onChunk_chunks env c.streamId c.sequence c.value last s'
    refine ⟨⟨ht'.noChunks.trans hno.symm, ht'.lastChunk.trans hl.symm, ?_⟩, hd.trans (hs'.trans hf)⟩
    rw [ho, chunkOrders_congr (hs'.trans hf)]
    exact congrArg (· ++ chunkOrders c.value s0) ht'.orders
  have hstep := feed_step env s c
  generalize c.feed env s = r at hstep
  change SameAssembler r.2.1 (t.updateMboSnapshot c.value.currentChunk c.value.noChunks
    (c.chunk s0 hc).append).2.1 ∧ r.2.1.displayFactor = s0.displayFactor
  cases hstep with
  | same h0 hsame =>
    rw [← h.noChunks] at h0
    rw [← h.lastChunk] at hsame
    rw [Security.update_same h0 hsame]
    exact ⟨h, hf⟩
  | last h0 hsame hn hl =>
    rw [← h.noChunks] at h0
    rw [← h.lastChunk] at hsame hn
    rw [Security.update_last h0 hsame hn hl]
    exact ⟨⟨rfl, rfl, rfl⟩, (happend true s t rfl h).2⟩
  | next h0 hsame hn hl =>
    rw [← h.noChunks] at h0
    rw [← h.lastChunk] at hsame hn
    rw [Security.update_next h0 hsame hn hl]
    exact happend false _ _ rfl ⟨h.noChunks, rfl, h.orders⟩
  | restart h0 hsame hn =>
    rw [← h.noChunks] at h0
    rw [← h.lastChunk] at hsame hn
    rw [Security.update_restart h0 hsame hn]
    exact ⟨⟨rfl, rfl, rfl⟩, hf⟩
  | start h0 hone =>
    rw [← h.noChunks] at h0
    rw [Security.update_start h0 hone]
    exact happend _ _ _ rfl ⟨rfl, rfl, h.orders⟩
  | ignored h0 hone =>
    rw [← h.noChunks] at h0
    rw [Security.update_ignored h0 hone]
    exact ⟨h, hf⟩

/-- The assembler of the recovery feed runs through the states of `Assembly.run`. -/
theorem afterCalls_run (env : Env Qp Qo) (s : Security Qp Qo) (calls : List ChunkCall)
    (hs : Idle s) (hc : ∀ c ∈ calls, ChunkInRange c.value) :
    SameAssembler (afterCalls env s calls)
      (Assembly.run s (calls.pmap (fun c h => c.chunk s h) hc)).security := by
  suffices hrun : ∀ (t : Security Qp Qo) (a : Assembly Qp Qo),
      t.displayFactor = s.displayFactor → SameAssembler t a.security →
      SameAssembler (afterCalls env t calls)
        ((calls.pmap (fun c h => c.chunk s h) hc).foldl Assembly.step a).security by
    exact hrun s _ rfl ⟨hs.1.symm, hs.2.1.symm, hs.2.2.symm⟩
  induction calls with
  | nil => exact fun t a _ h => h
  | cons c calls ih =>
    intro t a hf h
    obtain ⟨hsame, hf'⟩ := feed_chunk env c (hc c (by simp)) hf h
    exact ih (fun c' hc' => hc c' (List.mem_cons_of_mem c hc')) _ (a.step _) hf' hsame

theorem deliver_append (env : Env Qp Qo) (s : Security Qp Qo) (xs ys : List ChunkCall) :
    deliver env s (xs ++ ys) = deliver env s xs ++ deliver env (afterCalls env s xs) ys := by
  induction xs generalizing s with
  | nil => rfl
  | cons c xs ih =>
    simp only [List.cons_append, deliver, ih]
    rfl

/-- The chunks `first, ..., n` of a snapshot of `n` chunks. -/
def ChunksFrom (first n : Nat) (calls : List ChunkCall) : Prop :=
  calls.map (fun c => c.value.currentChunk) = List.range' first (n + 1 - first) ∧
    ∀ c ∈ calls, c.value.noChunks = n

/-- A completed snapshot is reported to the caller and leaves the assembler idle. -/
def Clean (r : ChunkResult Qp Qo) : Prop := Completed r → r.1 = true ∧ Idle r.2.1

theorem clean_of_effects {r : ChunkResult Qp Qo} (h : r.2.2 = []) : Clean r := by
  intro hc
  obtain ⟨_, _, _, hm⟩ := hc
  rw [h] at hm
  cases hm

theorem ChunksFrom.cons {first n : Nat} {c : ChunkCall} {calls : List ChunkCall}
    (h : ChunksFrom first n (c :: calls)) :
    c.value.currentChunk = first ∧ c.value.noChunks = n ∧ first ≤ n ∧
      ChunksFrom (first + 1) n calls := by
  obtain ⟨hmap, hno⟩ := h
  have hlen : 0 < n + 1 - first := by
    have hl := congrArg List.length hmap
    simp only [List.map_cons, List.length_cons, List.length_map, List.length_range'] at hl
    omega
  obtain ⟨m, hm⟩ := Nat.exists_eq_add_of_lt hlen
  have hm' : n + 1 - first = m + 1 := by omega
  rw [hm', List.range'_succ, List.map_cons, List.cons.injEq] at hmap
  refine ⟨hmap.1, hno c (by simp), by omega, ?_, ?_⟩
  · have he : n + 1 - (first + 1) = m := by omega
    rw [he]
    exact hmap.2
  · intro c' hc'
    exact hno c' (List.mem_cons_of_mem c hc')

/-- Chunks that do not start a snapshot are ignored while the assembler is empty. -/
theorem deliver_ignored (env : Env Qp Qo) (s : Security Qp Qo) (first n : Nat)
    (calls : List ChunkCall) (h : ChunksFrom first n calls) (hf : 2 ≤ first)
    (h0 : s.mbo.noChunks = 0) :
    (∀ r ∈ deliver env s calls, r.2.2 = []) ∧ afterCalls env s calls = s := by
  induction calls generalizing first with
  | nil => exact ⟨fun r hr => absurd hr (by simp [deliver]), rfl⟩
  | cons c calls ih =>
    obtain ⟨hcur, -, -, hrest⟩ := h.cons
    have hfeed := feed_ignored env s c h0 (by omega)
    obtain ⟨hr, ha⟩ := ih (first + 1) hrest (by omega)
    constructor
    · intro r hm
      simp only [deliver, hfeed, List.mem_cons] at hm
      cases hm with
      | inl hm => rw [hm]
      | inr hm => exact hr r hm
    · simpa [afterCalls, hfeed] using ha

/-- A chunk without effects before calls that complete a snapshot cleanly. -/
theorem deliver_cons (env : Env Qp Qo) (s : Security Qp Qo) (c : ChunkCall)
    (calls : List ChunkCall) (hnone : (c.feed env s).2.2 = [])
    (hclean : ∀ r ∈ deliver env (c.feed env s).2.1 calls, Clean r)
    (hdone : ∃ r ∈ deliver env (c.feed env s).2.1 calls, Completed r) :
    (∀ r ∈ deliver env s (c :: calls), Clean r) ∧
      ∃ r ∈ deliver env s (c :: calls), Completed r := by
  constructor
  · intro r hr
    cases List.mem_cons.1 hr with
    | inl hr => exact hr ▸ clean_of_effects hnone
    | inr hr => exact hclean r hr
  · obtain ⟨r, hr, hc⟩ := hdone
    exact ⟨r, List.mem_cons_of_mem _ hr, hc⟩

/-- From chunk `first` on, the rest of the snapshot completes it cleanly. -/
theorem deliver_rest (env : Env Qp Qo) (s : Security Qp Qo) (first n : Nat)
    (calls : List ChunkCall) (h : ChunksFrom (first + 1) n calls) (hn : n < 2 ^ 32)
    (hf : 1 ≤ first) (hlt : first < n) (h0 : s.mbo.noChunks ≠ 0)
    (hl : s.mbo.lastChunk = first) :
    (∀ r ∈ deliver env s calls, Clean r) ∧ (∃ r ∈ deliver env s calls, Completed r) ∧
      (afterCalls env s calls).mbo.noChunks = 0 := by
  induction calls generalizing s first with
  | nil =>
    have hlen := congrArg List.length h.1
    simp only [List.map_nil, List.length_nil, List.length_range'] at hlen
    omega
  | cons c calls ih =>
    obtain ⟨hcur, hno, hle, hrest⟩ := h.cons
    have hsame : c.value.currentChunk ≠ s.mbo.lastChunk := by omega
    have hnext : c.value.currentChunk = u32 (s.mbo.lastChunk + 1) := by
      rw [hcur, hl, u32, Nat.mod_eq_of_lt (by omega)]
    by_cases hlast : c.value.currentChunk = c.value.noChunks
    · have hfeed := feed_last env s c h0 hsame hnext hlast
      have hnil : calls = [] := by
        have hlen := congrArg List.length hrest.1
        simp only [List.length_map, List.length_range'] at hlen
        exact List.eq_nil_of_length_eq_zero (by omega)
      subst hnil
      obtain ⟨effects, he, -⟩ := onChunk_true env c.streamId c.sequence c.value s
      refine ⟨?_, ⟨c.feed env s, by simp [deliver], ?_⟩, ?_⟩
      · intro r hr
        simp only [deliver, List.mem_singleton] at hr
        rw [hr, hfeed]
        intro _
        exact ⟨rfl, idle_resetChunks _⟩
      · rw [hfeed]
        exact completed_of_effects he
      · simp [afterCalls, hfeed, Security.resetChunks]
    · have hfeed := feed_next env s c h0 hsame hnext hlast
      rw [onChunk_false] at hfeed
      obtain ⟨hclean, hdone, ha⟩ := ih (c.feed env s).2.1 (first + 1) hrest (by omega) (by omega)
        (by rw [hfeed]; exact h0) (by rw [hfeed]; exact hcur)
      obtain ⟨hclean, hdone⟩ := deliver_cons env s c calls (by rw [hfeed]) hclean hdone
      exact ⟨hclean, hdone, ha⟩

/-- A snapshot of several chunks delivered to an empty assembler completes cleanly. -/
theorem deliver_from_empty (env : Env Qp Qo) (s : Security Qp Qo) (n : Nat)
    (calls : List ChunkCall) (h : ChunksFrom 1 n calls) (hn : n < 2 ^ 32) (h2 : 2 ≤ n)
    (h0 : s.mbo.noChunks = 0) :
    (∀ r ∈ deliver env s calls, Clean r) ∧ (∃ r ∈ deliver env s calls, Completed r) ∧
      (afterCalls env s calls).mbo.noChunks = 0 := by
  cases calls with
  | nil =>
    have hlen := congrArg List.length h.1
    simp only [List.map_nil, List.length_nil, List.length_range'] at hlen
    omega
  | cons c calls =>
    obtain ⟨hcur, hno, -, hrest⟩ := h.cons
    have hfeed := feed_start env s c h0 hcur
    have hne : decide (1 = c.value.noChunks) = false := by
      rw [decide_eq_false_iff_not]
      omega
    rw [hne, onChunk_false] at hfeed
    obtain ⟨hclean, hdone, ha⟩ := deliver_rest env (c.feed env s).2.1 1 n calls hrest hn
      (by omega) (by omega) (by rw [hfeed]; simp only; omega) (by rw [hfeed])
    obtain ⟨hclean, hdone⟩ := deliver_cons env s c calls (by rw [hfeed]) hclean hdone
    exact ⟨hclean, hdone, ha⟩

/-- The assembler recovers from `s` with snapshots of `n` chunks: every call that completes a
snapshot is clean, at `s` and during two deliveries, and the deliveries complete one. -/
def Recovers (env : Env Qp Qo) (s : Security Qp Qo) (n : Nat) : Prop :=
  (∀ c : ChunkCall, c.value.noChunks = n → ChunkInRange c.value → Clean (c.feed env s)) ∧
    ∀ first second, ChunksFrom 1 n first → ChunksFrom 1 n second →
      (∀ r ∈ deliver env s (first ++ second), Clean r) ∧
        ∃ r ∈ deliver env s (first ++ second), Completed r

theorem feed_clean (env : Env Qp Qo) (s : Security Qp Qo) (c : ChunkCall)
    (h2 : 2 ≤ c.value.noChunks) : Clean (c.feed env s) := by
  have hstep := feed_step env s c
  generalize c.feed env s = r at hstep
  cases hstep with
  | same _ _ => exact clean_of_effects rfl
  | last _ _ _ _ => exact fun _ => ⟨rfl, idle_resetChunks _⟩
  | next _ _ _ _ => exact clean_of_effects rfl
  | restart _ _ _ => exact clean_of_effects rfl
  | start _ _ =>
    have hne : decide (1 = c.value.noChunks) = false := by
      rw [decide_eq_false_iff_not]
      omega
    rw [hne, onChunk_false]
    exact clean_of_effects rfl
  | ignored _ _ => exact clean_of_effects rfl

theorem recovers_of_two_le (env : Env Qp Qo) (s : Security Qp Qo) (n : Nat) (h : Assembling s)
    (hn : n < 2 ^ 32) (h2 : 2 ≤ n) : Recovers env s n := by
  refine ⟨fun c hc _ => feed_clean env s c (by omega), ?_⟩
  intro first second hf hs
  rw [deliver_append]
  -- it is enough that the first delivery is clean and leaves an empty assembler
  suffices hfirst : (∀ r ∈ deliver env s first, Clean r) ∧
      (afterCalls env s first).mbo.noChunks = 0 by
    obtain ⟨hclean, hdone, -⟩ := deliver_from_empty env _ n second hs hn h2 hfirst.2
    constructor
    · intro r hr
      cases List.mem_append.1 hr with
      | inl hr => exact hfirst.1 r hr
      | inr hr => exact hclean r hr
    · obtain ⟨r, hr, hc⟩ := hdone
      exact ⟨r, List.mem_append_right _ hr, hc⟩
  by_cases h0 : s.mbo.noChunks = 0
  · obtain ⟨hclean, -, ha⟩ := deliver_from_empty env s n first hf hn h2 h0
    exact ⟨hclean, ha⟩
  · obtain ⟨hl1, hl2⟩ := h h0
    cases first with
    | nil =>
      have hlen := congrArg List.length hf.1
      simp only [List.map_nil, List.length_nil, List.length_range'] at hlen
      omega
    | cons c calls =>
      obtain ⟨hcur, hno, -, hrest⟩ := hf.cons
      by_cases hsame : c.value.currentChunk = s.mbo.lastChunk
      · -- the first chunk is a duplicate and the others go on from it
        have hfeed := feed_same env s c h0 hsame
        obtain ⟨hclean, -, ha⟩ := deliver_rest env s 1 n calls hrest hn (by omega) (by omega) h0
          (by omega)
        refine ⟨?_, by simpa [afterCalls, hfeed] using ha⟩
        intro r hr
        simp only [deliver, hfeed, List.mem_cons] at hr
        cases hr with
        | inl hr => rw [hr]; exact clean_of_effects rfl
        | inr hr => exact hclean r hr
      · -- the first chunk makes the assembler start over and the others are ignored
        have hnext : c.value.currentChunk ≠ u32 (s.mbo.lastChunk + 1) := by
          rw [hcur, u32]
          omega
        have hfeed := feed_restart env s c h0 hsame hnext
        obtain ⟨hr0, ha⟩ := deliver_ignored env s.resetChunks 2 n calls hrest (by omega) rfl
        refine ⟨?_, ?_⟩
        · intro r hr
          simp only [deliver, hfeed, List.mem_cons] at hr
          cases hr with
          | inl hr => rw [hr]; exact clean_of_effects rfl
          | inr hr => exact clean_of_effects (hr0 r hr)
        · have hs' : afterCalls env s (c :: calls) = s.resetChunks := by
            simpa [afterCalls, hfeed] using ha
          rw [hs']
          rfl

/-- A snapshot of one chunk is submitted but neither reported nor cleared away. -/
theorem feed_single (env : Env Qp Qo) (s : Security Qp Qo) (c : ChunkCall)
    (h0 : s.mbo.noChunks = 0) (hcur : c.value.currentChunk = 1) (hno : c.value.noChunks = 1) :
    Completed (c.feed env s) ∧ (c.feed env s).1 = false := by
  have hlast : decide (1 = 1) = true := rfl
  obtain ⟨effects, he, -⟩ := onChunk_true env c.streamId c.sequence c.value
    { s with mbo := { s.mbo with noChunks := 1, lastChunk := 1 } }
  rw [feed_start env s c h0 hcur, hno, hlast]
  exact ⟨completed_of_effects he, rfl⟩

theorem not_recovers_one (env : Env Qp Qo) (s : Security Qp Qo) (h : Assembling s) :
    ¬ Recovers env s 1 := by
  intro hr
  let c : ChunkCall :=
    { streamId := 0, sequence := {}
      value := { lastMsgSeqNumProcessed := 0, noChunks := 1, currentChunk := 1, securityID := 0
                 noMDEntries := [] } }
  have hc : ChunksFrom 1 1 [c] := ⟨rfl, fun c' hc' => by rw [List.mem_singleton.1 hc']⟩
  obtain ⟨hclean, hdone⟩ := hr.2 [c] [c] hc hc
  have bad : ∀ t : Security Qp Qo, t.mbo.noChunks = 0 → ¬ Clean (c.feed env t) := by
    intro t h0 hct
    obtain ⟨hcomp, hfalse⟩ := feed_single env t c h0 rfl rfl
    have htrue := (hct hcomp).1
    rw [hfalse] at htrue
    cases htrue
  by_cases h0 : s.mbo.noChunks = 0
  · exact bad s h0 (hclean _ (by simp [deliver]))
  · obtain ⟨hl1, hl2⟩ := h h0
    by_cases hsame : c.value.currentChunk = s.mbo.lastChunk
    · -- both copies are taken for duplicates
      have hfeed := feed_same env s c h0 hsame
      obtain ⟨r, hm, _, _, _, he⟩ := hdone
      simp only [List.singleton_append, deliver, hfeed, List.mem_cons, List.not_mem_nil,
        or_false, or_self] at hm
      rw [hm] at he
      cases he
    · have hnext : c.value.currentChunk ≠ u32 (s.mbo.lastChunk + 1) := by
        simp only [c, u32] at hsame ⊢
        omega
      have hfeed := feed_restart env s c h0 hsame hnext
      exact bad s.resetChunks rfl (hclean _ (by simp [deliver, hfeed]))

/-- Recovery of the assembler from every reachable state: it works exactly for snapshots of
more than one chunk. -/
theorem snapshot_assembly_recovers_iff (env : Env Qp Qo) (s : Security Qp Qo)
    (calls : List ChunkCall) (n : Nat) (hs : Idle s)
    (hc : ∀ c ∈ calls, ChunkInRange c.value) (h1 : 1 ≤ n) (hn : n < 2 ^ 32) :
    Recovers env (afterCalls env s calls) n ↔ n ≠ 1 := by
  have ha := afterCalls_assembling env s calls (assembling_of_noChunks hs.1) hc
  constructor
  · intro hr h
    subst h
    exact not_recovers_one env _ ha hr
  · intro h
    exact recovers_of_two_le env _ n ha hn (by omega)

/-- Also after a snapshot of one chunk, a snapshot of two chunks completes. -/
theorem snapshot_assembly_recovers_two_chunks :
    let s := newSecurity (none : Option Nat) (none : Option Nat) "CME" "ESZ5" (some 1) false
    let value : Snapshot53 :=
      { lastMsgSeqNumProcessed := 100, noChunks := 1, currentChunk := 1, securityID := 7
        noMDEntries := [] }
    Recovers (Env.direct {}) (afterCalls (Env.direct {}) s [⟨1, {}, value⟩]) 2 :=
  (snapshot_assembly_recovers_iff (Env.direct {}) _ _ 2 ⟨rfl, rfl, rfl⟩ (by decide) (by decide)
    (by decide)).2 (by decide)

/-- A fresh assembler does not recover with snapshots of one chunk: the chunk is submitted,
the call returns `false`, and the copy of the next cycle is taken for a duplicate. -/
theorem snapshot_assembly_single_chunk_stuck :
    let s := newSecurity (none : Option Nat) (none : Option Nat) "CME" "ESZ5" (some 1) false
    let c : ChunkCall := ⟨1, {}, { lastMsgSeqNumProcessed := 100, noChunks := 1, currentChunk := 1
                                   securityID := 7, noMDEntries := [] }⟩
    let t := (c.feed (Env.direct {}) s).2.1
    Completed (c.feed (Env.direct {}) s) ∧ (c.feed (Env.direct {}) s).1 = false ∧
      t.mbo.noChunks = 1 ∧ c.feed (Env.direct {}) t = (false, t, []) ∧
      ¬ Recovers (Env.direct {}) s 1 := by
  intro s c t
  obtain ⟨hc, hf⟩ := feed_single (Env.direct {}) s c rfl rfl rfl
  exact ⟨hc, hf, rfl, feed_same _ t c (by decide) rfl,
    not_recovers_one _ s (assembling_of_noChunks rfl)⟩

end RoqCme.MarketData
