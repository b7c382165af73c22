import RoqCme.MarketData.Channel

/-! Exactly-once in-order delivery of the A/B arbitration. The invariant is kept by
every pass of the drain loop; nothing is assumed about what the handlers do. -/
namespace RoqCme.MarketData
open RoqCme.Lib RoqCme.Mdp
variable {β P σ : Type*}

/-- The numbers `first, first + 1, ..., last`; none while no packet has been parsed. -/
def Sequence.numbers (s : Sequence) : List Nat :=
  if s.firstSequenceNumber = 0 then []
  else List.range' s.firstSequenceNumber (s.lastSequenceNumber + 1 - s.firstSequenceNumber)

/-- The largest frame number considered: one below the wrap-around of `last + 1`. -/
def maxSequenceNumber : Nat := 2 ^ 32 - 2

namespace Arbiter

def InRange (A : Arbiter β P σ) (payload : P) : Prop :=
  ∀ frame, A.frame payload = some frame →
    1 ≤ frame.sequenceNumber ∧ frame.sequenceNumber ≤ maxSequenceNumber

/-- The payload arrived since the reset, with this number in its frame. -/
def ArrivedUnder (A : Arbiter β P σ) (ch : Channel β P) (sequenceNumber : Nat) (payload : P) : Prop :=
  payload ∈ ch.epoch.arrived ∧
    ∃ frame, A.frame payload = some frame ∧ frame.sequenceNumber = sequenceNumber

structure Sound (A : Arbiter β P σ) (ch : Channel β P) : Prop where
  idle : ch.sequence.firstSequenceNumber = 0 →
    ch.sequence.lastSequenceNumber = 0 ∧ A.buffer.held ch.buffer = 0
  first_le_last : ch.sequence.firstSequenceNumber ≤ ch.sequence.lastSequenceNumber
  filter_le_first : ch.sequence.firstSequenceNumber ≠ 0 →
    A.filterSnapshotFromIncremental ≤ ch.sequence.firstSequenceNumber
  last_le : ch.sequence.lastSequenceNumber ≤ maxSequenceNumber
  numbers : ch.epoch.parsed.map Prod.fst = ch.sequence.numbers
  parsed_arrived : ∀ x ∈ ch.epoch.parsed, A.ArrivedUnder ch x.1 x.2
  held_arrived : ∀ x ∈ A.buffer.held ch.buffer,
    A.ArrivedUnder ch x.1 x.2 ∧ x.1 ≤ maxSequenceNumber

/-- Every packet ahead of the last parsed one is held. -/
def Waiting (A : Arbiter β P σ) (ch : Channel β P) : Prop :=
  ∀ payload sequenceNumber, A.ArrivedUnder ch sequenceNumber payload →
    A.filterSnapshotFromIncremental ≤ sequenceNumber →
    ch.sequence.lastSequenceNumber < sequenceNumber →
    (sequenceNumber, payload) ∈ A.buffer.held ch.buffer

/-- The next packet is not held: the drain loop has run to its end. -/
def Settled (A : Arbiter β P σ) (ch : Channel β P) : Prop :=
  ch.sequence.firstSequenceNumber ≠ 0 →
    ∀ payload, (ch.sequence.lastSequenceNumber + 1, payload) ∉ A.buffer.held ch.buffer

theorem u32_next {A : Arbiter β P σ} {ch : Channel β P} (h : A.Sound ch) :
    u32 (ch.sequence.lastSequenceNumber + 1) = ch.sequence.lastSequenceNumber + 1 := by
  have hl := h.last_le
  unfold maxSequenceNumber at hl
  exact Nat.mod_eq_of_lt (by omega)

theorem ArrivedUnder.arrive {A : Arbiter β P σ} {ch : Channel β P} {n : Nat} {q : P}
    (h : A.ArrivedUnder ch n q) (p : P) : A.ArrivedUnder (ch.arrive p) n q :=
  ⟨List.mem_append_left _ h.1, h.2⟩

theorem Sound.arrive {A : Arbiter β P σ} {ch : Channel β P} (h : A.Sound ch) (p : P) :
    A.Sound (ch.arrive p) where
  idle := h.idle
  first_le_last := h.first_le_last
  filter_le_first := h.filter_le_first
  last_le := h.last_le
  numbers := h.numbers
  parsed_arrived x hx := (h.parsed_arrived x hx).arrive p
  held_arrived x hx := ⟨(h.held_arrived x hx).1.arrive p, (h.held_arrived x hx).2⟩

/-- Parsing the successor of `last`, or any packet while idle, extends the range. -/
theorem numbers_update (s : Sequence) (n : Nat) (hn : 1 ≤ n)
    (hle : s.firstSequenceNumber ≤ s.lastSequenceNumber)
    (hnext : s.firstSequenceNumber = 0 ∨ n = s.lastSequenceNumber + 1) :
    Sequence.numbers
        { firstSequenceNumber := if s.firstSequenceNumber = 0 then n else s.firstSequenceNumber
          lastSequenceNumber := n } =
      s.numbers ++ [n] := by
  unfold Sequence.numbers
  by_cases h0 : s.firstSequenceNumber = 0
  · have hn0 : n ≠ 0 := by omega
    simp [h0, hn0]
  · have hl : n = s.lastSequenceNumber + 1 := by
      rcases hnext with h | h
      · exact absurd h h0
      · exact h
    subst hl
    have hlen : s.lastSequenceNumber + 1 + 1 - s.firstSequenceNumber =
        s.lastSequenceNumber + 1 - s.firstSequenceNumber + 1 := by omega
    have hlast : s.firstSequenceNumber + (s.lastSequenceNumber + 1 - s.firstSequenceNumber) =
        s.lastSequenceNumber + 1 := by omega
    simp only [h0, if_false, hlen, List.range'_1_concat, hlast]

theorem Sound.parseMessage {A : Arbiter β P σ} {st : Channel β P × σ} (h : A.Sound st.1)
    (feed : Priority) {n : Nat} {p : P} (hp : A.ArrivedUnder st.1 n p)
    (hn : 1 ≤ n) (hmax : n ≤ maxSequenceNumber) (hf : A.filterSnapshotFromIncremental ≤ n)
    (hnext : st.1.sequence.firstSequenceNumber = 0 ∨ n = st.1.sequence.lastSequenceNumber + 1) :
    A.Sound (A.parseMessage feed n p st).1 where
  idle h0 := by
    simp only [Arbiter.parseMessage, Channel.updateSequenceNumber] at h0
    split at h0
    · omega
    · contradiction
  first_le_last := by
    have hle := h.first_le_last
    simp only [Arbiter.parseMessage, Channel.updateSequenceNumber]
    split
    · exact Nat.le_refl n
    · rcases hnext with h0 | h1
      · contradiction
      · omega
  filter_le_first := by
    intro _
    simp only [Arbiter.parseMessage, Channel.updateSequenceNumber]
    split
    · exact hf
    · next h0 => exact h.filter_le_first h0
  last_le := hmax
  numbers := by
    have hnum := numbers_update st.1.sequence n hn h.first_le_last hnext
    simpa [Arbiter.parseMessage, Channel.updateSequenceNumber, h.numbers] using hnum.symm
  parsed_arrived x hx := by
    simp only [Arbiter.parseMessage, Channel.updateSequenceNumber, List.mem_append,
      List.mem_singleton] at hx
    rcases hx with hx | rfl
    · exact h.parsed_arrived x hx
    · exact hp
  held_arrived := h.held_arrived

/-- Replacing the buffer by one that holds no payload from elsewhere. -/
theorem Sound.buffer {A : Arbiter β P σ} {ch : Channel β P} (h : A.Sound ch) (b : β)
    (hb : ∀ x ∈ A.buffer.held b, A.ArrivedUnder ch x.1 x.2 ∧ x.1 ≤ maxSequenceNumber)
    (h0 : ch.sequence.firstSequenceNumber ≠ 0) : A.Sound { ch with buffer := b } where
  idle hi := absurd hi h0
  first_le_last := h.first_le_last
  filter_le_first := h.filter_le_first
  last_le := h.last_le
  numbers := h.numbers
  parsed_arrived := h.parsed_arrived
  held_arrived := hb

/-- After parsing `n`, only packets ahead of `n` have to be held. -/
theorem Waiting.parseMessage {A : Arbiter β P σ} {st : Channel β P × σ} (feed : Priority)
    {n : Nat} {p : P}
    (hw : ∀ q m, A.ArrivedUnder st.1 m q → A.filterSnapshotFromIncremental ≤ m → n < m →
      (m, q) ∈ A.buffer.held st.1.buffer) :
    A.Waiting (A.parseMessage feed n p st).1 := by
  intro q m hq hf hlt
  exact hw q m hq hf hlt

theorem ArrivedUnder.of_arrive {A : Arbiter β P σ} {ch : Channel β P} {n : Nat} {p q : P}
    (h : A.ArrivedUnder (ch.arrive p) n q) : A.ArrivedUnder ch n q ∨ q = p := by
  obtain ⟨hmem, hframe⟩ := h
  simp only [Channel.arrive, List.mem_append, List.mem_singleton] at hmem
  cases hmem with
  | inl hmem => exact Or.inl ⟨hmem, hframe⟩
  | inr hmem => exact Or.inr hmem

/-- If the new payload needs no place in the buffer, the others keep theirs. -/
theorem Waiting.arrive {A : Arbiter β P σ} {ch : Channel β P} (hw : A.Waiting ch) (p : P)
    (hp : ∀ frame, A.frame p = some frame →
      A.filterSnapshotFromIncremental ≤ frame.sequenceNumber →
      frame.sequenceNumber ≤ ch.sequence.lastSequenceNumber) :
    A.Waiting (ch.arrive p) := by
  intro q m hq hf hlt
  cases hq.of_arrive with
  | inl hq => exact hw q m hq hf hlt
  | inr he =>
    subst he
    obtain ⟨-, frame, hframe, rfl⟩ := hq
    have hle := hp frame hframe hf
    have hlast : (ch.arrive q).sequence = ch.sequence := rfl
    rw [hlast] at hlt
    omega

/-- Packets under another number than that of the new one are held already. -/
theorem Waiting.others {A : Arbiter β P σ} {ch : Channel β P} (hw : A.Waiting ch) {p : P}
    {frame : Frame} (hframe : A.frame p = some frame) {q : P} {m : Nat}
    (hq : A.ArrivedUnder (ch.arrive p) m q) (hf : A.filterSnapshotFromIncremental ≤ m)
    (hlt : ch.sequence.lastSequenceNumber < m) (hne : m ≠ frame.sequenceNumber) :
    (m, q) ∈ A.buffer.held ch.buffer := by
  cases hq.of_arrive with
  | inl hq => exact hw q m hq hf hlt
  | inr he =>
    subst he
    obtain ⟨-, frame', hframe', rfl⟩ := hq
    rw [hframe] at hframe'
    cases hframe'
    exact absurd rfl hne

/-- The new packet is put beside those that are held. -/
theorem Waiting.keep {A : Arbiter β P σ} {ch : Channel β P} (hw : A.Waiting ch) {p : P}
    {frame : Frame} (hframe : A.frame p = some frame)
    (hfree : A.buffer.hasFree ch.buffer = true) :
    A.Waiting { ch.arrive p with
      buffer := A.buffer.keep ch.buffer frame.sequenceNumber p } := by
  intro q m hq hf hlt
  have hq : A.ArrivedUnder (ch.arrive p) m q := hq
  rw [A.buffer.mem_keep hfree]
  by_cases he : m = frame.sequenceNumber
  · cases hq.of_arrive with
    | inl hq => exact Or.inr (hw q m hq hf hlt)
    | inr hqp => exact Or.inl (by rw [he, hqp])
  · exact Or.inr (hw.others hframe hq hf hlt he)

theorem receive_inv (A : Arbiter β P σ) (feed : Priority) (p : P) (ch : Channel β P) (s : σ)
    (h : A.Sound ch) (hw : A.Waiting ch) (hr : A.InRange p)
    (hfree : A.buffer.hasFree ch.buffer = true) :
    A.Sound (A.receive feed p (ch.arrive p, s)).1 ∧
      A.Waiting (A.receive feed p (ch.arrive p, s)).1 := by
  have ha := h.arrive p
  have hnext := u32_next h
  cases hframe : A.frame p with
  | none =>
    simp only [receive, hframe]
    exact ⟨ha, hw.arrive p (fun _ hf => by rw [hframe] at hf; cases hf)⟩
  | some frame =>
    obtain ⟨hn, hmax⟩ := hr frame hframe
    have hp : A.ArrivedUnder (ch.arrive p) frame.sequenceNumber p :=
      ⟨by simp [Channel.arrive], frame, hframe, rfl⟩
    have hseq : (ch.arrive p).sequence = ch.sequence := rfl
    have hbuf : (ch.arrive p).buffer = ch.buffer := rfl
    by_cases hfilter : frame.sequenceNumber < A.filterSnapshotFromIncremental
    · simp only [receive, hframe, holdDrop, hfilter, if_true]
      refine ⟨ha, hw.arrive p ?_⟩
      intro frame' hframe' hle
      rw [hframe] at hframe'
      cases hframe'
      omega
    · by_cases h0 : ch.sequence.firstSequenceNumber = 0
      · simp only [receive, hframe, holdDrop, hfilter, hseq, h0, ne_eq, not_true_eq_false, if_false,
          Bool.false_eq_true]
        refine ⟨ha.parseMessage feed hp hn hmax (by omega) (Or.inl h0), ?_⟩
        apply Waiting.parseMessage
        intro q m hq hf hlt
        have hidle := (h.idle h0).1
        exact hw.others hframe hq hf (by omega) (by omega)
      · simp only [receive, hframe, holdDrop, hfilter, hseq, h0, ne_eq, not_false_eq_true, if_true,
          if_false, hnext, decide_eq_true_eq]
        by_cases hdrop : frame.sequenceNumber < ch.sequence.lastSequenceNumber + 1
        · simp only [hdrop, if_true]
          refine ⟨ha, hw.arrive p ?_⟩
          intro frame' hframe' _
          rw [hframe] at hframe'
          cases hframe'
          omega
        · by_cases hhold : frame.sequenceNumber > ch.sequence.lastSequenceNumber + 1
          · simp only [hdrop, if_false, hhold, if_true, hbuf]
            refine ⟨ha.buffer _ ?_ h0, hw.keep hframe hfree⟩
            intro x hx
            rw [A.buffer.mem_keep hfree] at hx
            cases hx with
            | inl hx => subst hx; exact ⟨hp, hmax⟩
            | inr hx => exact ha.held_arrived x hx
          · simp only [hdrop, hhold, if_false]
            have he : frame.sequenceNumber = ch.sequence.lastSequenceNumber + 1 := by omega
            refine ⟨ha.parseMessage feed hp hn hmax (by omega) (Or.inr he), ?_⟩
            apply Waiting.parseMessage
            intro q m hq hf hlt
            exact hw.others hframe hq hf (by omega) (by omega)

theorem drain_inv (A : Arbiter β P σ) (feed : Priority) (fuel : Nat) (st : Channel β P × σ)
    (h : A.Sound st.1) (hw : A.Waiting st.1) :
    A.Sound (A.drain feed fuel st).1 ∧ A.Waiting (A.drain feed fuel st).1 := by
  induction fuel generalizing st with
  | zero => exact ⟨h, hw⟩
  | succ fuel ih =>
    by_cases h0 : st.1.sequence.firstSequenceNumber = 0
    · simpa [drain, h0] using ⟨h, hw⟩
    · cases hget : A.buffer.get st.1.buffer (st.1.sequence.lastSequenceNumber + 1) with
      | none => simpa [drain, h0, u32_next h, hget] using ⟨h, hw⟩
      | some r =>
        obtain ⟨p, b⟩ := r
        have hmem := A.buffer.mem_of_get hget
        have hb := h.buffer b (fun x hx => h.held_arrived x ((hmem x).2 (Or.inr hx))) h0
        obtain ⟨hp, hmax⟩ := h.held_arrived _ ((hmem _).2 (Or.inl rfl))
        have hfl := h.filter_le_first h0
        have hll := h.first_le_last
        simp only [drain, ne_eq, h0, not_false_eq_true, if_true, u32_next h, hget]
        apply ih
        · have hst : A.Sound (Prod.fst ({ st.1 with buffer := b }, st.2)) := hb
          exact hst.parseMessage feed hp (by omega) hmax (by omega) (Or.inr rfl)
        · apply Waiting.parseMessage
          intro q m hq hf hlt
          have hh := (hmem (m, q)).1 (hw q m hq hf (by omega))
          cases hh with
          | inl he =>
            simp only [Prod.mk.injEq] at he
            omega
          | inr hh => exact hh

/-- One more pass than there are held payloads always reaches the end of the loop. -/
theorem drain_settled (A : Arbiter β P σ) (feed : Priority) (fuel : Nat) (st : Channel β P × σ)
    (h : A.Sound st.1) (hw : A.Waiting st.1)
    (hfuel : (A.buffer.held st.1.buffer).card < fuel) :
    A.Settled (A.drain feed fuel st).1 := by
  induction fuel generalizing st with
  | zero => omega
  | succ fuel ih =>
    by_cases h0 : st.1.sequence.firstSequenceNumber = 0
    · simp [drain, h0, Settled]
    · cases hget : A.buffer.get st.1.buffer (st.1.sequence.lastSequenceNumber + 1) with
      | none =>
        have hnone := (A.buffer.get_eq_none _ _).1 hget
        simpa [drain, h0, u32_next h, hget, Settled] using hnone
      | some r =>
        obtain ⟨p, b⟩ := r
        have hone := drain_inv A feed 1 st h hw
        simp only [drain, ne_eq, h0, not_false_eq_true, if_true, u32_next h, hget] at hone ⊢
        apply ih _ hone.1 hone.2
        have hcard := A.buffer.card_get hget
        simp only [Arbiter.parseMessage, Channel.updateSequenceNumber]
        omega

/-- The invariant of a channel between two calls of `dispatch`. -/
structure Invariant (A : Arbiter β P σ) (ch : Channel β P) : Prop where
  sound : A.Sound ch
  waiting : A.Waiting ch
  settled : A.Settled ch

/-- A channel without history whose buffer is empty, as after construction and after a reset. -/
theorem invariant_fresh (A : Arbiter β P σ) (b : β) (hb : A.buffer.held b = 0)
    (past : List (Epoch P)) : A.Invariant { buffer := b, past := past } where
  sound :=
    { idle := fun _ => ⟨rfl, hb⟩
      first_le_last := Nat.le_refl 0
      filter_le_first := fun h => absurd rfl h
      last_le := Nat.zero_le _
      numbers := rfl
      parsed_arrived := fun x hx => by cases hx
      held_arrived := fun x hx => by rw [hb] at hx; simp at hx }
  waiting q m hq := by cases hq.1
  settled h := absurd rfl h

theorem dispatch_inv (A : Arbiter β P σ) (feed : Priority) (p : P) (st : Channel β P × σ)
    (h : A.Invariant st.1) (hr : A.InRange p) : A.Invariant (A.dispatch feed p st).1 := by
  cases hfree : A.buffer.hasFree st.1.buffer with
  | true =>
    have hb : A.buffer.hasFree (st.1.arrive p).buffer = true := hfree
    obtain ⟨hs, hw⟩ := receive_inv A feed p st.1 st.2 h.sound h.waiting hr hfree
    obtain ⟨hs', hw'⟩ := drain_inv A feed
      ((A.buffer.held (A.receive feed p (st.1.arrive p, st.2)).1.buffer).card + 1) _ hs hw
    simp only [dispatch, hb, if_true]
    exact ⟨hs', hw', drain_settled A feed _ _ hs hw (Nat.lt_succ_self _)⟩
  | false =>
    have hb : A.buffer.hasFree (st.1.arrive p).buffer = false := hfree
    simp only [dispatch, hb, Bool.false_eq_true, if_false]
    exact invariant_fresh A _ (A.buffer.held_clear _) _

theorem run_inv (A : Arbiter β P σ) (events : List (Priority × P)) (st : Channel β P × σ)
    (h : A.Invariant st.1) (hr : ∀ e ∈ events, A.InRange e.2) :
    A.Invariant (A.run events st).1 := by
  induction events generalizing st with
  | nil => exact h
  | cons e events ih =>
    apply ih
    · exact dispatch_inv A e.1 e.2 st h (hr e (by simp))
    · intro e' he'
      exact hr e' (List.mem_cons_of_mem e he')

/-- The arbiter of the code: a payload is a byte string with a `Frame` in front. -/
def ofBytes (buffer : KeyedBuffer β (List UInt8)) (filterSnapshotFromIncremental : Nat)
    (parse : Priority → List UInt8 → σ → σ) (reset : σ → σ) : Arbiter β (List UInt8) σ :=
  { buffer := buffer, frame := Frame.parse, parse := parse, reset := reset
    filterSnapshotFromIncremental := filterSnapshotFromIncremental }

/-- Exactly-once in-order delivery over every interleaving of the two feeds. The packets
parsed since the reset are numbered `first..last`, each arrived under its number; every
packet further ahead is in the buffer, and the successor of `last` has not arrived. -/
theorem delivery_exactly_once_in_order (B : KeyedBuffer β (List UInt8)) (filter : Nat)
    (parse : Priority → List UInt8 → σ → σ) (reset : σ → σ) (b : β) (s : σ)
    (events : List (Priority × List UInt8)) (hb : B.held b = 0)
    (hr : ∀ e ∈ events, ∀ frame, Frame.parse e.2 = some frame →
      1 ≤ frame.sequenceNumber ∧ frame.sequenceNumber ≤ 2 ^ 32 - 2) :
    let A := ofBytes B filter parse reset
    let ch := (A.run events ({ buffer := b }, s)).1
    ch.epoch.parsed.map Prod.fst = ch.sequence.numbers ∧
      (∀ x ∈ ch.epoch.parsed, A.ArrivedUnder ch x.1 x.2) ∧
      (∀ payload n, A.ArrivedUnder ch n payload → filter ≤ n →
        ch.sequence.lastSequenceNumber < n → (n, payload) ∈ B.held ch.buffer) ∧
      (ch.sequence.firstSequenceNumber ≠ 0 → ∀ payload,
        (ch.sequence.lastSequenceNumber + 1, payload) ∉ B.held ch.buffer ∧
          ¬ A.ArrivedUnder ch (ch.sequence.lastSequenceNumber + 1) payload) := by
  intro A ch
  have h : A.Invariant ch := run_inv A events _ (invariant_fresh A b hb []) hr
  refine ⟨h.sound.numbers, h.sound.parsed_arrived, h.waiting, ?_⟩
  intro h0 payload
  have hnot := h.settled h0 payload
  refine ⟨hnot, fun ha => hnot (h.waiting payload _ ha ?_ (Nat.lt_succ_self _))⟩
  have hfl := h.sound.filter_le_first h0
  have hll := h.sound.first_le_last
  omega

/-- Packet 3 of feed A overtakes packet 2, which feed B delivers together with a copy of 1. -/
theorem delivery_exactly_once_in_order_overtaking :
    let packet := fun n : Nat => toLittleEndian 4 n ++ toLittleEndian 8 0
    let events := [(Priority.primary, packet 1), (.primary, packet 3), (.secondary, packet 1),
      (.secondary, packet 2)]
    let A : Arbiter _ _ Unit := ofBytes (KeyedBuffer.slots _ 10) 0 (fun _ _ s => s) id
    let ch := (A.run events ({ buffer := [] }, ())).1
    ch.sequence.numbers = [1, 2, 3] ∧ ch.epoch.parsed.map Prod.fst = ch.sequence.numbers :=
  ⟨by decide +kernel, (delivery_exactly_once_in_order (KeyedBuffer.slots _ 10) 0 (fun _ _ s => s) id
    [] () [(.primary, toLittleEndian 4 1 ++ toLittleEndian 8 0),
      (.primary, toLittleEndian 4 3 ++ toLittleEndian 8 0),
      (.secondary, toLittleEndian 4 1 ++ toLittleEndian 8 0),
      (.secondary, toLittleEndian 4 2 ++ toLittleEndian 8 0)] rfl (by decide +kernel)).1⟩

end Arbiter
end RoqCme.MarketData
