import RoqCme.Lib.Duplication
import RoqCme.Tools.ChunkAssembler
import RoqCme.MarketData.SnapshotIntegrity

/-! Snapshot chunks that arrive twice in a row. A second copy is harmless unless the first one
throws an assembly away, since the second one then starts the next. -/
namespace RoqCme.MarketData
open RoqCme.Lib RoqCme.Mdp RoqCme.Tools MBOFDMarketRecovery
variable {Qp Qo : Type}

/-- A call together with what its callback was given as `last` and did, each time it ran. -/
def ChunkCall.observe (env : Env Qp Qo) :
    Reporter (Security Qp Qo) ChunkCall (Bool × List Effect) := fun s c =>
  (s.updateMboSnapshot c.value.currentChunk c.value.noChunks fun last t =>
    ((onChunk env c.streamId c.sequence c.value last t).1,
      [(last, (onChunk env c.streamId c.sequence c.value last t).2)])).2

/-- The messages of the recovery feed and the calls of the incremental feed, with their effects. -/
def SecurityEvent.receive (env : Env Qp Qo) : Reporter (Security Qp Qo) SecurityEvent Effect :=
  fun s e => e.op env s

/-- A first chunk that throws an assembly away, or announces no chunks at all, starts none: to
the assembler a second copy is a first chunk again. -/
def StartsOver (s : Security Qp Qo) (value : Snapshot53) : Prop :=
  value.currentChunk = 1 ∧
    if s.mbo.noChunks = 0 then value.noChunks = 0
    else s.mbo.lastChunk ≠ 1 ∧ (u32 (s.mbo.lastChunk + 1) ≠ 1 ∨ value.noChunks = 1)

instance (s : Security Qp Qo) (value : Snapshot53) : Decidable (StartsOver s value) :=
  inferInstanceAs (Decidable (_ ∧ ite _ _ _))

/-- For the chunks of a proper feed: the first chunk of a snapshot finds an assembly that has
come further than that. -/
theorem startsOver_iff {s : Security Qp Qo} {value : Snapshot53} (hs : Assembling s)
    (hc : ChunkInRange value) :
    StartsOver s value ↔ value.currentChunk = 1 ∧ s.mbo.noChunks ≠ 0 ∧ 2 ≤ s.mbo.lastChunk := by
  obtain ⟨h1, hle, -⟩ := hc
  unfold StartsOver
  by_cases h0 : s.mbo.noChunks = 0
  · rw [if_pos h0]
    omega
  · obtain ⟨hl, hlt⟩ := hs h0
    rw [if_neg h0]
    unfold u32
    omega

section Calls
variable {ε : Type} {s : Security Qp Qo} {value : Snapshot53}
  {callback : Bool → Security Qp Qo → Security Qp Qo × List ε}

/-- The callback leaves the counters of the assembler alone. -/
def KeepsChunks (callback : Bool → Security Qp Qo → Security Qp Qo × List ε) : Prop :=
  ∀ last t, (callback last t).1.mbo.noChunks = t.mbo.noChunks ∧
    (callback last t).1.mbo.lastChunk = t.mbo.lastChunk

/-- A second call with the same chunk does nothing, unless it starts over. -/
theorem update_again (hk : KeepsChunks callback) (h : ¬ StartsOver s value) :
    let t := (s.updateMboSnapshot value.currentChunk value.noChunks callback).2.1
    t.updateMboSnapshot value.currentChunk value.noChunks callback = (false, t, []) := by
  intro t
  have hstep := s.updateMboSnapshot_step value.currentChunk value.noChunks callback
  revert t
  generalize s.updateMboSnapshot value.currentChunk value.noChunks callback = r at hstep
  unfold StartsOver at h
  cases hstep with
  | same h0 hsame => exact Security.update_same h0 hsame
  | last h0 hsame hn hl =>
    rw [if_neg h0] at h
    exact Security.update_ignored rfl fun hone => h ⟨hone, by omega, .inr (hl.symm.trans hone)⟩
  | next h0 _ _ _ =>
    obtain ⟨hno, hlast⟩ :=
      hk false { s with mbo := { s.mbo with lastChunk := value.currentChunk } }
    exact Security.update_same (by rw [hno]; exact h0) hlast.symm
  | restart h0 hsame hn =>
    rw [if_neg h0] at h
    exact Security.update_ignored rfl fun hone => h ⟨hone, by omega, .inl (by omega)⟩
  | start h0 hone =>
    rw [if_pos h0] at h
    obtain ⟨hno, hlast⟩ := hk (decide (1 = value.noChunks))
      { s with mbo := { s.mbo with noChunks := value.noChunks, lastChunk := 1 } }
    exact Security.update_same (by rw [hno]; exact fun h0' => h ⟨hone, h0'⟩) (by rw [hlast, hone])
  | ignored h0 hone => exact Security.update_ignored h0 hone

/-- A first chunk that starts over leaves an assembler that is empty to the second copy. -/
theorem update_startsOver (hk : KeepsChunks callback) (h : StartsOver s value) :
    value.currentChunk = 1 ∧
      (s.updateMboSnapshot value.currentChunk value.noChunks callback).2.1.mbo.noChunks = 0 := by
  obtain ⟨hone, h⟩ := h
  refine ⟨hone, ?_⟩
  have hstep := s.updateMboSnapshot_step value.currentChunk value.noChunks callback
  generalize s.updateMboSnapshot value.currentChunk value.noChunks callback = r at hstep
  cases hstep with
  | same h0 hsame =>
    rw [if_neg h0] at h
    exact absurd (hsame.symm.trans hone) h.1
  | last _ _ _ _ => rfl
  | next h0 _ hn hl =>
    rw [if_neg h0] at h
    omega
  | restart _ _ _ => rfl
  | start h0 _ =>
    rw [if_pos h0] at h
    exact (hk _ _).1.trans h
  | ignored _ hne => exact absurd hone hne

end Calls

theorem keepsChunks_onChunk (env : Env Qp Qo) (c : ChunkCall) :
    KeepsChunks (onChunk env c.streamId c.sequence c.value : Bool → SecurityOp Qp Qo) := by
  intro last t
  obtain ⟨hno, hl, -, -⟩ := onChunk_chunks env c.streamId c.sequence c.value last t
  exact ⟨hno, hl⟩

/-- The assembler: a second copy of a chunk in immediate succession. -/
theorem observe_repeatable_iff (env : Env Qp Qo) (s : Security Qp Qo) (c : ChunkCall) :
    (ChunkCall.observe env).Repeatable s c ↔ ¬ StartsOver s c.value := by
  have hk : KeepsChunks fun last (t : Security Qp Qo) =>
      ((onChunk env c.streamId c.sequence c.value last t).1,
        [(last, (onChunk env c.streamId c.sequence c.value last t).2)]) :=
    fun last t => keepsChunks_onChunk env c last t
  rw [Reporter.repeatable_iff]
  constructor
  · intro h hover
    obtain ⟨hone, hempty⟩ := update_startsOver hk hover
    -- the second copy runs the callback
    have hsecond := congrArg Prod.snd h
    unfold ChunkCall.observe at hsecond
    rw [Security.update_start hempty hone] at hsecond
    cases hsecond
  · intro h
    exact congrArg Prod.snd (update_again hk h)

/-- The recovery feed: a second copy of a message in immediate succession. -/
theorem receive_repeatable (env : Env Qp Qo) {s : Security Qp Qo} {c : ChunkCall}
    (h : Awaited s c.value → ¬ StartsOver s c.value) :
    (SecurityEvent.receive env).Repeatable s (.snapshot c) := by
  rw [Reporter.repeatable_iff]
  unfold SecurityEvent.receive
  by_cases hw : Awaited s c.value
  · rw [op_snapshot_awaited env s c hw]
    by_cases hw' : Awaited (c.feed env s).2.1 c.value
    · rw [op_snapshot_awaited env _ c hw']
      exact congrArg Prod.snd (update_again (keepsChunks_onChunk env c) (h hw))
    · exact op_snapshot_unawaited env _ c hw'
  · rw [op_snapshot_unawaited env s c hw]
    exact op_snapshot_unawaited env s c hw

/-- The packets of both feeds, as what they do to the security. -/
def receivePackets (env : Env Qp Qo) : Reporter (Security Qp Qo) (List SecurityEvent) Effect :=
  (SecurityEvent.receive env).batches

/-- The packet comes from the recovery feed. -/
def recovery (packet : List SecurityEvent) : Bool :=
  packet.all fun
    | .snapshot _ => true
    | .incremental _ _ => false

def SecurityEvent.StartsOver (s : Security Qp Qo) : SecurityEvent → Prop
  | .snapshot c => Awaited s c.value ∧ MarketData.StartsOver s c.value
  | .incremental _ _ => False

instance (s : Security Qp Qo) : DecidablePred (SecurityEvent.StartsOver s)
  | .snapshot c => inferInstanceAs (Decidable (Awaited s c.value ∧ StartsOver s c.value))
  | .incremental _ _ => inferInstanceAs (Decidable False)

/-- At most one chunk of the security, which does not start over. -/
def SafeToRepeat (s : Security Qp Qo) (packet : List SecurityEvent) : Prop :=
  packet.length ≤ 1 ∧ ∀ e ∈ packet, ¬ e.StartsOver s

instance (s : Security Qp Qo) : DecidablePred (SafeToRepeat s) :=
  fun _ => inferInstanceAs (Decidable (_ ∧ _))

theorem repeatable_packet (env : Env Qp Qo) {s : Security Qp Qo} {packet : List SecurityEvent}
    (hp : recovery packet = true) (h : SafeToRepeat s packet) :
    (receivePackets env).Repeatable s packet := by
  obtain ⟨hlen, hsafe⟩ := h
  match packet with
  | [] => exact Reporter.repeatable_nil _ s
  | [.snapshot c] =>
    have hover : ¬ (Awaited s c.value ∧ StartsOver s c.value) := hsafe (.snapshot c) (by simp)
    refine (Reporter.repeatable_singleton _ s _).2 (receive_repeatable env ?_)
    exact fun hw ho => hover ⟨hw, ho⟩
  | .incremental ctx action :: _ => cases hp
  | _ :: _ :: _ => simp at hlen

/-- Packets of the recovery feed that are safe to repeat can all arrive twice. -/
theorem doubled_packets (env : Env Qp Qo) (s : Security Qp Qo)
    (packets : List (List SecurityEvent))
    (h : Along (fun t packet => (receivePackets env t packet).1)
      (fun t packet => recovery packet = true → SafeToRepeat t packet) packets s)
    (before after : List (List SecurityEvent)) (he : packets = before ++ after) :
    (receivePackets env).run (Reporter.doubled recovery before) s =
      (receivePackets env).run before s := by
  refine (Reporter.run_doubled_iff (receivePackets env) recovery packets s).2 ?_ before after he
  refine h.imp (fun _ => True) (fun _ _ _ _ => trivial) ?_ trivial
  intro t packet _ _ hsafe hrec
  exact repeatable_packet env hrec (hsafe hrec)

/-- In every state, a second copy of a chunk is harmless to the assembler exactly when the chunk
does not start over; and as long as no packet of the recovery feed starts over, every one of them
can arrive twice. -/
theorem duplicate_chunks_harmless_iff (env : Env Qp Qo) (s : Security Qp Qo) :
    (∀ c, (ChunkCall.observe env).Repeatable s c ↔ ¬ StartsOver s c.value) ∧
    ∀ packets,
      Along (fun t packet => (receivePackets env t packet).1)
        (fun t packet => recovery packet = true → SafeToRepeat t packet) packets s →
      ∀ before after, packets = before ++ after →
        (receivePackets env).run (Reporter.doubled recovery before) s =
          (receivePackets env).run before s :=
  ⟨observe_repeatable_iff env s, doubled_packets env s⟩

/-- A snapshot of three chunks of which every packet arrives twice. -/
theorem duplicate_chunks_harmless_one_cycle :
    let s := newSecurity (none : Option Nat) (none : Option Nat) "CME" "ESZ5" (some 1) false
    let packets := [[resubscribeAt50], [chunkOfThree 1 100], [chunkOfThree 2 100],
      [chunkOfThree 3 100]]
    (receivePackets (Env.direct {})).run (Reporter.doubled recovery packets) s =
      (receivePackets (Env.direct {})).run packets s := by
  intro s packets
  exact (duplicate_chunks_harmless_iff (Env.direct {}) s).2 packets (by decide +kernel) packets []
    (by simp)

/-- Chunk three is lost, and the first chunk of the next cycle arrives twice: the first copy
ends the assembly, the second one starts another. -/
theorem duplicate_chunk_starts_over :
    let s := newSecurity (none : Option Nat) (none : Option Nat) "CME" "ESZ5" (some 1) false
    let packets := [[resubscribeAt50], [chunkOfThree 1 100], [chunkOfThree 2 100]]
    let t := ((receivePackets (Env.direct {})).run packets s).1
    let c : ChunkCall := ⟨1, {}, ⟨200, 3, 1, 7, [⟨some 200, none, 5, 1, .bid⟩]⟩⟩
    chunkOfThree 1 200 = .snapshot c ∧
      ¬ (ChunkCall.observe (Env.direct {})).Repeatable t c ∧
      ((ChunkCall.observe (Env.direct {})).run [c] t).2 = [] ∧
      ((ChunkCall.observe (Env.direct {})).run [c, c] t).2 = [(false, [])] ∧
      (receivePackets (Env.direct {})).run
          (Reporter.doubled recovery (packets ++ [[chunkOfThree 1 200]])) s ≠
        (receivePackets (Env.direct {})).run (packets ++ [[chunkOfThree 1 200]]) s := by
  intro s packets t c
  have hone : ((ChunkCall.observe (Env.direct {})).run [c] t).2 = [] := by decide +kernel
  have htwo : ((ChunkCall.observe (Env.direct {})).run [c, c] t).2 = [(false, [])] := by
    decide +kernel
  refine ⟨rfl, ?_, hone, htwo, by decide +kernel⟩
  intro h
  have hcalls := congrArg Prod.snd h
  rw [hone, htwo] at hcalls
  cases hcalls

end RoqCme.MarketData
