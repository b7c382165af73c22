import RoqCme.MarketData.Arbitration
import RoqCme.MarketData.Views

/-! Snapshots that a recovery feed forces onto a sequencer. The marks compared by the force
test are written by three components; the arbitration invariant of the channel makes the
test sound. -/
namespace RoqCme.MarketData
open RoqCme.Lib RoqCme.Mdp RoqCme.Tools
variable {β Qp Qo : Type}

/-- Every packet from `resubscribe` on has been parsed since the reset, once and in order, and
the channel has come as far as the snapshot. -/
def GapFree (ch : Channel β (List UInt8)) (resubscribe exchangeSequence : Nat) : Prop :=
  resubscribe ≤ exchangeSequence ∧ exchangeSequence ≤ ch.sequence.lastSequenceNumber ∧
    (ch.epoch.parsed.map Prod.fst).filter (fun n => resubscribe ≤ n) =
      List.range' resubscribe (ch.sequence.lastSequenceNumber + 1 - resubscribe)

theorem filter_range' (first last from_ : Nat) (h1 : first ≤ from_) (h2 : from_ ≤ last + 1) :
    (List.range' first (last + 1 - first)).filter (fun n => from_ ≤ n) =
      List.range' from_ (last + 1 - from_) := by
  have hsplit : List.range' first (last + 1 - first) =
      List.range' first (from_ - first) ++ List.range' from_ (last + 1 - from_) := by
    have happ := @List.range'_append first (from_ - first) (last + 1 - from_) 1
    have e1 : first + 1 * (from_ - first) = from_ := by omega
    have e2 : from_ - first + (last + 1 - from_) = last + 1 - first := by omega
    rw [e1, e2] at happ
    exact happ.symm
  have hlow : (List.range' first (from_ - first)).filter (fun n => decide (from_ ≤ n)) = [] := by
    rw [List.filter_eq_nil_iff]
    intro n hn
    have hb := List.mem_range'_1.1 hn
    simp only [decide_eq_true_eq]
    omega
  have hhigh : (List.range' from_ (last + 1 - from_)).filter (fun n => decide (from_ ≤ n)) =
      List.range' from_ (last + 1 - from_) := by
    rw [List.filter_eq_self]
    intro n hn
    have hb := List.mem_range'_1.1 hn
    simp only [decide_eq_true_eq]
    omega
  rw [hsplit, List.filter_append, hlow, hhigh, List.nil_append]


/-- The force test is sound on a channel that keeps the arbitration invariant. -/
theorem gapFree_of_force {σ : Type} {A : Arbiter β (List UInt8) σ} {ch : Channel β (List UInt8)}
    (h : A.Sound ch) {resubscribe n : Nat} (h0 : resubscribe ≠ 0) (hle : resubscribe ≤ n)
    (hf : ch.sequence.force resubscribe n = true) : GapFree ch resubscribe n := by
  simp only [Sequence.force, decide_eq_true_eq] at hf
  obtain ⟨hfirst, hlast⟩ := hf
  have hstarted : ch.sequence.firstSequenceNumber ≠ 0 := by
    intro hi
    have hz := (h.idle hi).1
    omega
  refine ⟨hle, hlast, ?_⟩
  rw [h.numbers, Sequence.numbers, if_neg hstarted]
  exact filter_range' _ _ _ hfirst (by omega)

/-- A snapshot numbered `n` goes to the sequencer of the book with `force`. -/
def Forced (n : Nat) : Book → Effect → Prop
  | .mbp, e => ∃ levels, e = .submitMbp levels n (.snapshot true)
  | .mbo, e => ∃ orders, e = .submitMbo orders n (.snapshot true)

/-- The resubscription mark of a book. -/
def resubscribeMark (s : Security Qp Qo) : Book → Nat
  | .mbp => s.mbp.resubscribe
  | .mbo => s.mbo.resubscribe

/-- Why an operation on the security `s` may force a snapshot numbered `n`. -/
def Justified (sequence : Sequence) (s : Security Qp Qo) (book : Book) (n : Nat) : Prop :=
  resubscribeMark s book ≠ 0 ∧ resubscribeMark s book ≤ n ∧
    sequence.force (resubscribeMark s book) n = true

theorem Echo.not_forced {book' : Book} {e : Effect} (h : Echo book' e) (n : Nat) (book : Book) :
    ¬ Forced n book e := by
  cases book with
  | mbp => rintro ⟨levels, rfl⟩; cases h
  | mbo => rintro ⟨orders, rfl⟩; cases h

theorem MBPMarketRecovery.forced_justified (env : Env Qp Qo) (ctx : Context) (sequence : Sequence)
    (value : Snapshot52) (s : Security Qp Qo) (n : Nat) (book : Book) (e : Effect)
    (he : e ∈ (snapshotFullRefresh env ctx sequence value s).2) (hf : Forced n book e) :
    n = value.lastMsgSeqNumProcessed ∧ Justified sequence s book n := by
  obtain ⟨hw, ⟨levels, rfl⟩ | he⟩ := snapshotFullRefresh_effects env ctx sequence value s e he
  · cases book with
    | mbo => obtain ⟨orders, hx⟩ := hf; cases hx
    | mbp =>
      obtain ⟨levels', hx⟩ := hf
      simp only [Effect.submitMbp.injEq, Mode.snapshot.injEq] at hx
      obtain ⟨-, rfl, hforce⟩ := hx
      exact ⟨rfl, hw.1, hw.2, hforce⟩
  · exact absurd hf (he.not_forced n book)

theorem MBOFDMarketRecovery.forced_justified (env : Env Qp Qo) (streamId : Nat)
    (sequence : Sequence) (value : Snapshot53) (s : Security Qp Qo) (n : Nat) (book : Book)
    (e : Effect) (he : e ∈ (snapshotFullRefreshOrderBook53 env streamId sequence value s).2)
    (hf : Forced n book e) : n = value.lastMsgSeqNumProcessed ∧ Justified sequence s book n := by
  obtain ⟨hw, ⟨orders, rfl⟩ | he⟩ :=
    snapshotFullRefreshOrderBook53_effects env streamId sequence value s e he
  · cases book with
    | mbp => obtain ⟨levels, hx⟩ := hf; cases hx
    | mbo =>
      obtain ⟨orders', hx⟩ := hf
      simp only [Effect.submitMbo.injEq, Mode.snapshot.injEq] at hx
      obtain ⟨-, rfl, hforce⟩ := hx
      exact ⟨rfl, hw.1, hw.2, hforce⟩
  · exact absurd hf (he.not_forced n book)

/-- `lastMsgSeqNumProcessed` of the snapshot messages. -/
def lastMsgSeqNumProcessed : Message → Option Nat
  | .snapshotFullRefresh52 value => some value.lastMsgSeqNumProcessed
  | .snapshotFullRefreshLongQty69 value => some value.lastMsgSeqNumProcessed
  | .snapshotFullRefreshOrderBook53 value => some value.lastMsgSeqNumProcessed
  | _ => none

/-- The records that a delivery adds to the trace. -/
def Feeds.added (env : Env Qp Qo) (f : Feeds Qp Qo) (d : Delivery) : List Record :=
  (f.step env d).shared.trace.drop f.shared.trace.length

theorem onSecurity_added (shared : Shared Qp Qo) (securityId : Int) (site : Site)
    (op : SecurityOp Qp Qo) (r : Record)
    (h : r ∈ (shared.onSecurity securityId site op).trace.drop shared.trace.length) :
    ∃ s, shared.securityDefinitions.securities securityId = some s ∧
      r = ⟨securityId, site, (op s).2⟩ := by
  cases hs : shared.securityDefinitions.securities securityId with
  | none => simp [Shared.onSecurity, hs] at h
  | some s =>
    simp only [Shared.onSecurity, hs, List.drop_left, List.mem_singleton] at h
    exact ⟨s, rfl, h⟩

/-- A recovery message hands the channel's sequence to the force test. -/
def RecoveryFrom (sequence : Sequence) (message : Message) (d : Delivery) : Prop :=
  (∃ streamId frame, d = .mbpRecovery streamId frame sequence message) ∨
    ∃ streamId, d = .mbofdRecovery streamId sequence message

theorem recovery_justified (env : Env Qp Qo) (f : Feeds Qp Qo) (sequence : Sequence)
    (message : Message) (d : Delivery) (hd : RecoveryFrom sequence message d) (r : Record)
    (hr : r ∈ f.added env d) (e : Effect) (he : e ∈ r.effects) (n : Nat) (book : Book)
    (hf : Forced n book e) :
    lastMsgSeqNumProcessed message = some n ∧
      ∃ s, f.shared.securityDefinitions.securities r.securityId = some s ∧
        Justified sequence s book n := by
  have hno : ∀ {P : Prop}, r ∈ f.shared.trace.drop f.shared.trace.length → P := by
    intro P hx
    rw [List.drop_length] at hx
    cases hx
  cases hd with
  | inl hd =>
    obtain ⟨streamId, frame, rfl⟩ := hd
    have hop : ∀ (value : Snapshot52), r ∈ (f.shared.onSecurity value.securityID .mbpMarketRecovery
        (MBPMarketRecovery.snapshotFullRefresh env ⟨streamId, frame, 0⟩ sequence
          value)).trace.drop f.shared.trace.length →
        value.lastMsgSeqNumProcessed = n ∧
          ∃ s, f.shared.securityDefinitions.securities r.securityId = some s ∧
            Justified sequence s book n := by
      intro value hx
      obtain ⟨s, hs, rfl⟩ := onSecurity_added _ _ _ _ r hx
      obtain ⟨hn, hj⟩ := MBPMarketRecovery.forced_justified env _ sequence value s n book e he hf
      exact ⟨hn.symm, s, hs, hj⟩
    simp only [Feeds.added, Feeds.step, MBPMarketRecovery.onMessage] at hr
    split at hr
    · split at hr
      · simpa [lastMsgSeqNumProcessed] using hop _ hr
      · exact hno hr
    · split at hr
      · simpa [lastMsgSeqNumProcessed] using hop _ hr
      · exact hno hr
    · exact hno hr
  | inr hd =>
    obtain ⟨streamId, rfl⟩ := hd
    simp only [Feeds.added, Feeds.step, MBOFDMarketRecovery.onMessage] at hr
    split at hr
    · next value =>
      split at hr
      · obtain ⟨s, hs, rfl⟩ := onSecurity_added _ _ _ _ r hr
        obtain ⟨hn, hj⟩ := MBOFDMarketRecovery.forced_justified env _ sequence value s n book e he
          hf
        exact ⟨by rw [hn]; rfl, s, hs, hj⟩
      · exact hno hr
    · exact hno hr

/-- The frame numbers of the incremental feed stay below the wrap-around. -/
def Packet.InRange (packet : Packet) : Prop :=
  packet.connectionType = .incremental → ∀ frame, Frame.parse packet.payload = some frame →
    1 ≤ frame.sequenceNumber ∧ frame.sequenceNumber ≤ 2 ^ 32 - 2

/-- Every channel keeps the arbitration invariant. -/
def Setup.Arbitrated (S : Setup β Qp Qo) (m : Manager β Qp Qo) : Prop :=
  ∀ channelId item, m.channels channelId = some item → (S.arbiter channelId).Invariant item.channel

theorem onChannel_arbitrated (S : Setup β Qp Qo) (packet : Packet) (item : Channel2 β)
    (shared : Shared Qp Qo) (h : (S.arbiter packet.channelId).Invariant item.channel)
    (hr : packet.InRange) :
    (S.arbiter packet.channelId).Invariant (S.onChannel packet item shared).1.channel := by
  cases ht : packet.connectionType with
  | instrumentDefinition | mbpMarketRecovery | mbofdMarketRecovery =>
    simp only [Setup.onChannel, ht]
    exact h
  | incremental =>
    simp only [Setup.onChannel, ht]
    apply Arbiter.dispatch_inv
    · exact h
    · exact hr ht

theorem dispatch_arbitrated (S : Setup β Qp Qo) (m : Manager β Qp Qo) (packet : Packet)
    (h : S.Arbitrated m) (hr : packet.InRange) : S.Arbitrated (S.dispatch m packet) := by
  cases hm : m.channels packet.channelId with
  | none =>
    simp only [Setup.dispatch, hm]
    exact h
  | some item =>
    simp only [Setup.dispatch, hm]
    intro channelId item' hi
    by_cases he : channelId = packet.channelId
    · subst he
      simp only [Function.update_self, Option.some.injEq] at hi
      rw [← hi]
      exact onChannel_arbitrated S packet item m.shared (h _ item hm) hr
    · simp only [Function.update_of_ne he] at hi
      exact h channelId item' hi

theorem run_arbitrated (S : Setup β Qp Qo) (packets : List Packet) (m : Manager β Qp Qo)
    (h : S.Arbitrated m) (hr : ∀ packet ∈ packets, packet.InRange) :
    S.Arbitrated (S.run packets m) := by
  induction packets generalizing m with
  | nil => exact h
  | cons packet packets ih =>
    apply ih
    · exact dispatch_arbitrated S m packet h (hr packet (by simp))
    · intro packet' hp
      exact hr packet' (List.mem_cons_of_mem packet hp)

theorem start_arbitrated (S : Setup β Qp Qo) (channelIds : List Nat) (b : β)
    (items : List SecDef) (hb : S.buffer.held b = 0) : S.Arbitrated (S.start channelIds b items) := by
  intro channelId item hi
  simp only [Setup.start] at hi
  split at hi
  · simp only [Option.some.injEq] at hi
    rw [← hi]
    exact Arbiter.invariant_fresh (S.arbiter channelId) b hb []
  · cases hi

/-- A recovery packet only leads to deliveries that carry the sequence of its channel. -/
theorem mem_deliveries_recovery (S : Setup β Qp Qo) (m : Manager β Qp Qo) (packet : Packet)
    (item : Channel2 β) (hm : m.channels packet.channelId = some item)
    (hp : packet.connectionType = .mbpMarketRecovery ∨
      packet.connectionType = .mbofdMarketRecovery) (d : Delivery)
    (hd : d ∈ S.deliveries m packet) :
    ∃ message, RecoveryFrom item.channel.sequence message d := by
  have hparsed : ∀ f : Frame → Message → Delivery, d ∈ S.parsed packet.payload f →
      ∃ frame message, d = f frame message := by
    intro f hx
    unfold Setup.parsed at hx
    split at hx
    · next frame _ =>
      obtain ⟨message, -, rfl⟩ := List.mem_map.1 hx
      exact ⟨frame, message, rfl⟩
    · cases hx
  simp only [Setup.deliveries, hm] at hd
  cases hp with
  | inl hp =>
    simp only [Setup.packetDeliveries, hp] at hd
    obtain ⟨frame, message, rfl⟩ := hparsed _ hd
    exact ⟨message, Or.inl ⟨_, frame, rfl⟩⟩
  | inr hp =>
    simp only [Setup.packetDeliveries, hp] at hd
    obtain ⟨frame, message, rfl⟩ := hparsed _ hd
    exact ⟨message, Or.inr ⟨_, rfl⟩⟩

/-- Whenever a recovery packet makes a feed force a snapshot, at any point of any run, the
channel has parsed every packet from the resubscription mark on and is not behind the
snapshot. -/
theorem forced_snapshots_gap_free (S : Setup β Qp Qo) (channelIds : List Nat) (b : β)
    (items : List SecDef) (hb : S.buffer.held b = 0) (packets : List Packet)
    (hr : ∀ packet ∈ packets, packet.InRange) (packet : Packet)
    (hp : packet.connectionType = .mbpMarketRecovery ∨
      packet.connectionType = .mbofdMarketRecovery) (item : Channel2 β)
    (hitem : (S.run packets (S.start channelIds b items)).channels packet.channelId = some item)
    (done rest : List Delivery) (d : Delivery)
    (hd : S.deliveries (S.run packets (S.start channelIds b items)) packet = done ++ d :: rest) :
    let f := Feeds.run S.env done (S.run packets (S.start channelIds b items)).feeds
    ∀ r ∈ f.added S.env d, ∀ e ∈ r.effects, ∀ n book, Forced n book e →
      (∃ message, RecoveryFrom item.channel.sequence message d ∧
        lastMsgSeqNumProcessed message = some n) ∧
      ∃ s, f.shared.securityDefinitions.securities r.securityId = some s ∧
        GapFree item.channel (resubscribeMark s book) n := by
  intro f r hrec e he n book hf
  have hinv := run_arbitrated S packets _ (start_arbitrated S channelIds b items hb) hr
  have hsound := (hinv packet.channelId item hitem).sound
  obtain ⟨message, hmsg⟩ := mem_deliveries_recovery S _ packet item hitem hp d
    (by rw [hd]; simp)
  obtain ⟨hn, s, hs, h0, hle, hforce⟩ := recovery_justified S.env f item.channel.sequence message d
    hmsg r hrec e he n book hf
  exact ⟨⟨message, hmsg, hn⟩, s, hs, gapFree_of_force hsound h0 hle hforce⟩

/-- A message header: size, block length, template, schema and version. -/
def messageHeader (size blockLength templateId : Nat) : List UInt8 :=
  [size, blockLength, templateId, 1, 9].flatMap (toLittleEndian 2)

/-- Template 50 with one entry, which has report number 3 for security 7. -/
def limitsBody : List UInt8 :=
  messageHeader 56 11 50 ++ toLittleEndian 11 0 ++ toLittleEndian 2 32 ++ [1] ++
    toLittleEndian 24 0 ++ toLittleEndian 4 7 ++ toLittleEndian 4 3

/-- Template 52: packets up to 2 are processed, one bid for security 7. -/
def snapshotBody : List UInt8 :=
  messageHeader 94 59 52 ++ toLittleEndian 4 2 ++ toLittleEndian 4 1 ++ toLittleEndian 4 7 ++
    toLittleEndian 4 3 ++ toLittleEndian 43 0 ++ toLittleEndian 2 22 ++ [1] ++
    toLittleEndian 8 5000000000000 ++ toLittleEndian 4 10 ++ toLittleEndian 4 2 ++ [1] ++
    toLittleEndian 4 0 ++ [48]

def snapshotEntry : Snapshot52.Entry :=
  { mDEntryPx := some 5000000000000, mDEntrySize := some 10, numberOfOrders := some 2
    mDPriceLevel := some 1, mDEntryType := .bid }

def gapSetup : Setup (List (Nat × List UInt8)) (Option Nat) (Option Nat) :=
  Setup.ofBodies {}
    [(limitsBody, [.limitsBanding50 [⟨7, 3⟩]]),
      (snapshotBody, [.snapshotFullRefresh52 ⟨2, 7, 0, [snapshotEntry]⟩])]

def frameHeader (sequenceNumber : Nat) : List UInt8 :=
  toLittleEndian 4 sequenceNumber ++ toLittleEndian 8 0

/-- Packet 1 has a gap in its report numbers, packet 2 no message. -/
def gapPackets : List Packet :=
  [⟨310, .incremental, .primary, frameHeader 1 ++ limitsBody⟩,
    ⟨310, .incremental, .secondary, frameHeader 2⟩]

/-- The gap leaves the mark 1; a snapshot numbered 2 is then forced. -/
theorem forced_snapshots_gap_free_after_gap :
    let m := gapSetup.run gapPackets (gapSetup.start [310] [] [SecDef.sample 7 "ESZ5"])
    ∃ item s, m.channels 310 = some item ∧
      m.feeds.shared.securityDefinitions.securities 7 = some s ∧
      GapFree item.channel (resubscribeMark s .mbp) 2 := by
  intro m
  obtain ⟨item, hitem⟩ : ∃ item, m.channels 310 = some item :=
    Option.isSome_iff_exists.1 (by decide +kernel)
  have hrange : ∀ packet ∈ gapPackets, packet.InRange := by
    intro packet hp
    simp only [gapPackets, List.mem_cons, List.not_mem_nil, or_false] at hp
    have hone : Frame.parse (frameHeader 1 ++ limitsBody) = some ⟨1, 0⟩ := by decide +kernel
    have htwo : Frame.parse (frameHeader 2) = some ⟨2, 0⟩ := by decide +kernel
    obtain rfl | rfl := hp
    · intro _ frame hf
      rw [hone] at hf
      cases hf
      decide
    · intro _ frame hf
      rw [htwo] at hf
      cases hf
      decide
  let levels : PriceLevels := ([⟨some 5000, 10, 2, .undefined, 0⟩], [])
  have hr : ⟨7, .mbpMarketRecovery, [.submitMbp levels 2 (.snapshot true),
      .publish (.marketByPrice ⟨1, "CME", "ESZ5", 0, 2, 0⟩ levels.1 levels.2 .snapshot),
      .resubscribe .mbp 0]⟩ ∈ m.feeds.added gapSetup.env
        (.mbpRecovery 1 ⟨9, 0⟩ ⟨1, 2⟩ (.snapshotFullRefresh52 ⟨2, 7, 0, [snapshotEntry]⟩)) := by
    decide +kernel
  obtain ⟨-, s, hs, hgap⟩ := forced_snapshots_gap_free gapSetup [310] [] [SecDef.sample 7 "ESZ5"]
    rfl gapPackets hrange ⟨310, .mbpMarketRecovery, .primary, frameHeader 9 ++ snapshotBody⟩
    (Or.inl rfl) item hitem [] [] _ (by decide +kernel) _ hr (.submitMbp levels 2 (.snapshot true))
    List.mem_cons_self 2 .mbp ⟨levels, rfl⟩
  rw [Feeds.run, List.foldl_nil] at hs
  refine ⟨item, s, hitem, ?_, hgap⟩
  rw [← hs]

end RoqCme.MarketData
