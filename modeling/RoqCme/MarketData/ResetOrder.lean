import RoqCme.Lib.Unwinding
import RoqCme.MarketData.Arbitration

/-! The order of the packets over a whole run, resets included. A reset forgets the last
number, so that whatever arrives next is parsed: the numbers increase as long as the packets
that start a channel over are ahead of everything parsed before. -/
namespace RoqCme.MarketData
open RoqCme.Lib RoqCme.Mdp
variable {β P σ : Type*}

/-- The numbers of all packets handed to the parser so far, over all resets. -/
def Channel.history (ch : Channel β P) : List Nat :=
  (ch.past ++ [ch.epoch]).flatMap fun epoch => epoch.parsed.map Prod.fst

/-- A packet numbered `n` is parsed without having been waited for: the channel has no
sequence, or `last + 1` has wrapped around to zero. -/
def Sequence.startsOver (s : Sequence) (n : Nat) : Bool :=
  s.firstSequenceNumber = 0 ∨ n = 0 ∧ u32 (s.lastSequenceNumber + 1) = 0

namespace Arbiter

/-- A packet that starts the channel over is ahead of everything parsed before. -/
def Resumes (A : Arbiter β P σ) (ch : Channel β P) (payload : P) : Prop :=
  A.buffer.hasFree ch.buffer = true → ∀ frame, A.frame payload = some frame →
    A.filterSnapshotFromIncremental ≤ frame.sequenceNumber →
    ch.sequence.startsOver frame.sequenceNumber = true →
    ∀ n ∈ ch.history, n < frame.sequenceNumber

/-- The invariant over resets. Nothing is held under number zero, so that the drain loop
never follows the wrap-around of `last + 1`. -/
structure Ordered (A : Arbiter β P σ) (ch : Channel β P) : Prop where
  increasing : ch.history.Pairwise (· < ·)
  le_last : ch.sequence.firstSequenceNumber ≠ 0 → ∀ n ∈ ch.history, n ≤ ch.sequence.lastSequenceNumber
  last_lt : ch.sequence.lastSequenceNumber < 2 ^ 32
  held_pos : ∀ x ∈ A.buffer.held ch.buffer, 0 < x.1 ∧ x.1 < 2 ^ 32

@[simp] theorem history_arrive (ch : Channel β P) (p : P) : (ch.arrive p).history = ch.history := by
  simp [Channel.history, Channel.arrive]

@[simp] theorem history_parseMessage (A : Arbiter β P σ) (feed : Priority) (n : Nat) (p : P)
    (st : Channel β P × σ) :
    (A.parseMessage feed n p st).1.history = st.1.history ++ [n] := by
  simp [Channel.history, Arbiter.parseMessage, Channel.updateSequenceNumber]

@[simp] theorem history_onSequenceReset (A : Arbiter β P σ) (st : Channel β P × σ) :
    (A.onSequenceReset st).1.history = st.1.history := by
  simp [Channel.history, Arbiter.onSequenceReset]

theorem holdDrop_of_hold {A : Arbiter β P σ} {s : Sequence} {n : Nat}
    (h : (A.holdDrop s n).1 = true) :
    A.holdDrop s n = (true, false) ∧ u32 (s.lastSequenceNumber + 1) < n := by
  unfold holdDrop at h ⊢
  split at h
  · cases h
  · next hfilter =>
    split at h
    · next h0 =>
      have hgt : u32 (s.lastSequenceNumber + 1) < n := of_decide_eq_true h
      have hnot : ¬ n < u32 (s.lastSequenceNumber + 1) := by omega
      rw [if_neg hfilter, if_pos h0]
      exact ⟨Prod.ext (decide_eq_true hgt) (decide_eq_false hnot), hgt⟩
    · cases h

/-- What becomes of a packet: nothing, a place in the buffer, or it is parsed at once. -/
theorem receive_cases (A : Arbiter β P σ) (feed : Priority) (p : P) (st : Channel β P × σ) :
    A.receive feed p st = st ∨
    ∃ frame, A.frame p = some frame ∧ A.filterSnapshotFromIncremental ≤ frame.sequenceNumber ∧
      ((A.holdDrop st.1.sequence frame.sequenceNumber).1 = true ∧
        A.receive feed p st = ({ st.1 with
          buffer := A.buffer.keep st.1.buffer frame.sequenceNumber p }, st.2) ∨
      (st.1.sequence.firstSequenceNumber = 0 ∨
          frame.sequenceNumber = u32 (st.1.sequence.lastSequenceNumber + 1)) ∧
        A.receive feed p st = A.parseMessage feed frame.sequenceNumber p st) := by
  cases hframe : A.frame p with
  | none => exact Or.inl (by simp only [receive, hframe])
  | some frame =>
    by_cases hfilter : frame.sequenceNumber < A.filterSnapshotFromIncremental
    · exact Or.inl (by simp only [receive, hframe, holdDrop, hfilter, if_true])
    · have hle : A.filterSnapshotFromIncremental ≤ frame.sequenceNumber := by omega
      by_cases h0 : st.1.sequence.firstSequenceNumber = 0
      · refine Or.inr ⟨frame, rfl, hle, Or.inr ⟨Or.inl h0, ?_⟩⟩
        simp [receive, hframe, holdDrop, hfilter, h0]
      · by_cases hdrop : frame.sequenceNumber < u32 (st.1.sequence.lastSequenceNumber + 1)
        · exact Or.inl (by simp [receive, hframe, holdDrop, hfilter, h0, hdrop])
        · by_cases hhold : u32 (st.1.sequence.lastSequenceNumber + 1) < frame.sequenceNumber
          · refine Or.inr ⟨frame, rfl, hle, Or.inl ⟨?_, ?_⟩⟩
            · simp [holdDrop, hfilter, h0, hhold]
            · simp [receive, hframe, holdDrop, hfilter, h0, hdrop, hhold]
          · refine Or.inr ⟨frame, rfl, hle, Or.inr ⟨Or.inr (by omega), ?_⟩⟩
            simp [receive, hframe, holdDrop, hfilter, h0, hdrop, hhold]

/-- A packet that starts the channel over is parsed. -/
theorem receive_startsOver (A : Arbiter β P σ) (feed : Priority) (p : P) (st : Channel β P × σ)
    {frame : Frame} (hframe : A.frame p = some frame)
    (hfilter : A.filterSnapshotFromIncremental ≤ frame.sequenceNumber)
    (hover : st.1.sequence.startsOver frame.sequenceNumber = true) :
    A.receive feed p st = A.parseMessage feed frame.sequenceNumber p st := by
  have hnot : ¬ frame.sequenceNumber < A.filterSnapshotFromIncremental := by omega
  simp only [Sequence.startsOver, Bool.decide_or, Bool.or_eq_true, decide_eq_true_eq] at hover
  by_cases h0 : st.1.sequence.firstSequenceNumber = 0
  · simp [receive, hframe, holdDrop, hnot, h0]
  · obtain ⟨hn, hnext⟩ := hover.resolve_left h0
    have hnotfilter : ¬ 0 < A.filterSnapshotFromIncremental := by omega
    simp [receive, hframe, holdDrop, h0, hn, hnext, hnotfilter]

theorem drain_history_prefix (A : Arbiter β P σ) (feed : Priority) (fuel : Nat)
    (st : Channel β P × σ) : st.1.history <+: (A.drain feed fuel st).1.history := by
  induction fuel generalizing st with
  | zero => exact List.prefix_refl _
  | succ fuel ih =>
    simp only [drain]
    split
    · split
      · next message buffer hget =>
        refine List.IsPrefix.trans ?_ (ih _)
        rw [history_parseMessage]
        exact List.prefix_append st.1.history _
      · exact List.prefix_refl _
    · exact List.prefix_refl _

theorem receive_history_prefix (A : Arbiter β P σ) (feed : Priority) (p : P)
    (st : Channel β P × σ) : st.1.history <+: (A.receive feed p st).1.history := by
  obtain h | ⟨frame, -, -, ⟨-, h⟩ | ⟨-, h⟩⟩ := A.receive_cases feed p st
  · exact ⟨[], by simp [h]⟩
  · exact ⟨[], by simp [h, Channel.history]⟩
  · exact ⟨[frame.sequenceNumber], by simp [h]⟩

theorem dispatch_history_prefix (A : Arbiter β P σ) (feed : Priority) (p : P)
    (st : Channel β P × σ) : st.1.history <+: (A.dispatch feed p st).1.history := by
  have hr := A.receive_history_prefix feed p (st.1.arrive p, st.2)
  rw [history_arrive] at hr
  simp only [dispatch]
  split
  · exact hr.trans (A.drain_history_prefix feed _ _)
  · exact ⟨[], by simp [Channel.history, Channel.arrive, onSequenceReset]⟩

theorem Ordered.parseMessage {A : Arbiter β P σ} {st : Channel β P × σ} (h : A.Ordered st.1)
    (feed : Priority) {n : Nat} {p : P} (hmax : n < 2 ^ 32) (hn : ∀ m ∈ st.1.history, m < n) :
    A.Ordered (A.parseMessage feed n p st).1 where
  increasing := by
    rw [history_parseMessage, List.pairwise_append]
    refine ⟨h.increasing, List.pairwise_singleton _ _, ?_⟩
    intro m hm k hk
    rw [List.mem_singleton] at hk
    subst hk
    exact hn m hm
  le_last := by
    intro _ m hm
    rw [history_parseMessage, List.mem_append, List.mem_singleton] at hm
    cases hm with
    | inl hm => exact Nat.le_of_lt (hn m hm)
    | inr hm => exact Nat.le_of_eq hm
  last_lt := hmax
  held_pos := h.held_pos

theorem Ordered.receive {A : Arbiter β P σ} {ch : Channel β P} (s : σ) (h : A.Ordered ch)
    (feed : Priority) {p : P} (hfree : A.buffer.hasFree ch.buffer = true)
    (hmax : ∀ frame, A.frame p = some frame → frame.sequenceNumber < 2 ^ 32)
    (hr : A.Resumes ch p) : A.Ordered (A.receive feed p (ch.arrive p, s)).1 := by
  have ha : A.Ordered (ch.arrive p) :=
    { increasing := by rw [history_arrive]; exact h.increasing
      le_last := by rw [history_arrive]; exact h.le_last
      last_lt := h.last_lt
      held_pos := h.held_pos }
  obtain he | ⟨frame, hframe, hfilter, ⟨hhold, he⟩ | ⟨hnext, he⟩⟩ :=
    A.receive_cases feed p (ch.arrive p, s)
  · rw [he]
    exact ha
  · rw [he]
    refine ⟨ha.increasing, ha.le_last, ha.last_lt, ?_⟩
    intro x hx
    cases (A.buffer.mem_keep hfree x).1 hx with
    | inl hx =>
      subst hx
      exact ⟨Nat.zero_lt_of_lt (holdDrop_of_hold hhold).2, hmax frame hframe⟩
    | inr hx => exact h.held_pos x hx
  · rw [he]
    refine ha.parseMessage feed (hmax frame hframe) ?_
    intro m hm
    rw [history_arrive] at hm
    by_cases hover : ch.sequence.startsOver frame.sequenceNumber = true
    · exact hr hfree frame hframe hfilter hover m hm
    · -- the packet is the successor of the last one, without a wrap-around
      simp only [Sequence.startsOver, decide_eq_true_eq, not_or, not_and] at hover
      have hn : frame.sequenceNumber = u32 (ch.sequence.lastSequenceNumber + 1) :=
        hnext.resolve_left hover.1
      have hle := h.le_last hover.1 m hm
      have hlast := h.last_lt
      have hne := hover.2
      simp only [u32] at hn hne
      omega

theorem Ordered.drain {A : Arbiter β P σ} (feed : Priority) (fuel : Nat) {st : Channel β P × σ}
    (h : A.Ordered st.1) : A.Ordered (A.drain feed fuel st).1 := by
  induction fuel generalizing st with
  | zero => exact h
  | succ fuel ih =>
    simp only [Arbiter.drain]
    split
    · next h0 =>
      split
      · next message buffer hget =>
        have hmem := A.buffer.mem_of_get hget
        obtain ⟨hpos, hmax⟩ := h.held_pos _ ((hmem _).2 (Or.inl rfl))
        have hb : A.Ordered { st.1 with buffer := buffer } :=
          ⟨h.increasing, h.le_last, h.last_lt, fun x hx => h.held_pos x ((hmem x).2 (Or.inr hx))⟩
        apply ih
        apply Ordered.parseMessage hb feed hmax
        intro m hm
        have hle := h.le_last h0 m hm
        have hlast := h.last_lt
        simp only [u32] at hpos ⊢
        omega
      · exact h
    · exact h

theorem Ordered.dispatch {A : Arbiter β P σ} {st : Channel β P × σ} (h : A.Ordered st.1)
    (feed : Priority) {p : P}
    (hmax : ∀ frame, A.frame p = some frame → frame.sequenceNumber < 2 ^ 32)
    (hr : A.Resumes st.1 p) : A.Ordered (A.dispatch feed p st).1 := by
  simp only [Arbiter.dispatch]
  split
  · next hfree => exact Ordered.drain feed _ (h.receive st.2 feed hfree hmax hr)
  · refine ⟨?_, fun h0 => absurd rfl h0, by simp [Arbiter.onSequenceReset], ?_⟩
    · rw [history_onSequenceReset]
      simpa [Channel.history, Channel.arrive] using h.increasing
    · intro x hx
      simp only [Arbiter.onSequenceReset, A.buffer.held_clear] at hx
      simp at hx

/-- Increasing numbers after a packet: they were increasing before, and the packet either
continued the sequence or started it over with a larger number. -/
theorem resumes_of_dispatch (A : Arbiter β P σ) (feed : Priority) (p : P) (st : Channel β P × σ)
    (h : (A.dispatch feed p st).1.history.Pairwise (· < ·)) :
    st.1.history.Pairwise (· < ·) ∧ A.Resumes st.1 p := by
  refine ⟨h.sublist (A.dispatch_history_prefix feed p st).sublist, ?_⟩
  intro hfree frame hframe hfilter hover
  have hb : A.buffer.hasFree (st.1.arrive p).buffer = true := hfree
  have hs : (st.1.arrive p).sequence.startsOver frame.sequenceNumber = true := hover
  simp only [Arbiter.dispatch, hb, if_true,
    A.receive_startsOver feed p (st.1.arrive p, st.2) hframe hfilter hs] at h
  have hp := h.sublist (A.drain_history_prefix feed _ _).sublist
  rw [history_parseMessage, history_arrive, List.pairwise_append] at hp
  intro m hm
  exact hp.2.2 m hm _ (by simp)

end Arbiter

theorem frame_sequenceNumber_lt {payload : List UInt8} {frame : Frame}
    (h : Frame.parse payload = some frame) : frame.sequenceNumber < 2 ^ 32 := by
  simp only [Frame.parse] at h
  split at h
  · cases h
  · cases h
    have hlt := ofLittleEndian_lt (payload.take 4)
    have hlen : (payload.take 4).length ≤ 4 := List.length_take_le 4 payload
    have hpow : 256 ^ (payload.take 4).length ≤ 256 ^ 4 := Nat.pow_le_pow_right (by decide) hlen
    have hval : (256 : Nat) ^ 4 = 2 ^ 32 := by decide
    simp only
    omega

/-- The numbers parsed over a whole run, resets included, increase exactly when every packet
that starts the channel over is ahead of everything parsed before. -/
theorem parsed_numbers_increase_iff (B : KeyedBuffer β (List UInt8)) (filter : Nat)
    (parse : Priority → List UInt8 → σ → σ) (reset : σ → σ) (b : β) (s : σ)
    (events : List (Priority × List UInt8)) (hb : B.held b = 0) :
    let A := Arbiter.ofBytes B filter parse reset
    (A.run events ({ buffer := b }, s)).1.history.Pairwise (· < ·) ↔
      Along (fun st e => A.dispatch e.1 e.2 st) (fun st e => A.Resumes st.1 e.2) events
        ({ buffer := b }, s) := by
  intro A
  constructor
  · intro h
    exact (Along.of_run (fun _ => True) (fun st => st.1.history.Pairwise (· < ·))
      (fun _ _ _ => trivial) (fun st e _ he => A.resumes_of_dispatch e.1 e.2 st he) trivial h).2
  · intro h
    have hstart : A.Ordered { buffer := b } :=
      { increasing := List.Pairwise.nil
        le_last := fun h0 => absurd rfl h0
        last_lt := by simp
        held_pos := by
          have hheld : A.buffer.held b = 0 := hb
          intro x hx
          rw [hheld] at hx
          simp at hx }
    exact (Along.run_inv (fun st => A.Ordered st.1) (fun st e ho hr =>
      ho.dispatch e.1 (fun _ hf => frame_sequenceNumber_lt hf) hr) hstart h).increasing

/-- Packets 1, 2, 4 and 5 with room for two: packet 6 finds the buffer full, and packet 7 is
ahead of all that was parsed. -/
theorem parsed_numbers_increase_iff_resumed_ahead :
    let packet := fun n : Nat => toLittleEndian 4 n ++ toLittleEndian 8 0
    let events := [(Priority.primary, packet 1), (.primary, packet 2), (.primary, packet 4),
      (.primary, packet 5), (.primary, packet 6), (.secondary, packet 7)]
    let A : Arbiter _ _ Unit := Arbiter.ofBytes (KeyedBuffer.slots _ 2) 0 (fun _ _ s => s) id
    (A.run events ({ buffer := [] }, ())).1.history = [1, 2, 7] ∧
      Along (fun st e => A.dispatch e.1 e.2 st) (fun st e => A.Resumes st.1 e.2) events
        ({ buffer := [] }, ()) := by
  intro packet events A
  have hh : (A.run events ({ buffer := [] }, ())).1.history = [1, 2, 7] := by decide +kernel
  refine ⟨hh, (parsed_numbers_increase_iff (KeyedBuffer.slots _ 2) 0 (fun _ _ s => s) id [] ()
    events rfl).1 ?_⟩
  have hp : [1, 2, 7].Pairwise (· < ·) := by decide
  rw [← hh] at hp
  exact hp

/-- The same, but a late copy of packet 1 is the first to arrive after the reset. -/
theorem late_duplicate_parsed_again :
    let packet := fun n : Nat => toLittleEndian 4 n ++ toLittleEndian 8 0
    let events := [(Priority.primary, packet 1), (.primary, packet 2), (.primary, packet 4),
      (.primary, packet 5), (.primary, packet 6), (.secondary, packet 1)]
    let A : Arbiter _ _ Unit := Arbiter.ofBytes (KeyedBuffer.slots _ 2) 0 (fun _ _ s => s) id
    (A.run events ({ buffer := [] }, ())).1.history = [1, 2, 1] ∧
      ¬ (A.run events ({ buffer := [] }, ())).1.history.Pairwise (· < ·) := by
  decide +kernel

end RoqCme.MarketData
