import Mathlib.Data.Finset.Card
import Mathlib.Data.Finset.Filter
import RoqCme.MarketData.FullBuffer
import RoqCme.MarketData.ResetOrder

/-! What the slots of the reorder buffer hold. A packet that is ahead is held each time it arrives,
and only one copy is ever taken out again. -/
namespace RoqCme.MarketData
open RoqCme.Lib RoqCme.Mdp
variable {β P σ : Type*}

namespace Arbiter

/-- The distinct numbers, ahead of the next one, of the packets since the last reset. -/
def numbersAhead (A : Arbiter β P σ) (ch : Channel β P) : Finset Nat :=
  ((ch.epoch.arrived.filterMap A.frame).map Frame.sequenceNumber).toFinset.filter
    (u32 (ch.sequence.lastSequenceNumber + 1) < ·)

/-- Every slot holds a packet that is still to come, and no number has two slots. -/
structure HoldsFuture (A : Arbiter β P σ) (ch : Channel β P) : Prop where
  ahead : ∀ x ∈ A.buffer.held ch.buffer, u32 (ch.sequence.lastSequenceNumber + 1) < x.1
  nodup : ((A.buffer.held ch.buffer).map Prod.fst).Nodup
  card_le : (A.buffer.held ch.buffer).card ≤ (A.numbersAhead ch).card

/-- A packet is about to be held while a slot holds its number already. -/
def HeldAgain (A : Arbiter β P σ) (ch : Channel β P) (payload : P) : Prop :=
  A.buffer.hasFree ch.buffer = true ∧ ∃ frame, A.frame payload = some frame ∧
    (A.holdDrop ch.sequence frame.sequenceNumber).1 = true ∧
    frame.sequenceNumber ∈ (A.buffer.held ch.buffer).map Prod.fst

instance (A : Arbiter β P σ) (ch : Channel β P) (payload : P) :
    Decidable (A.HeldAgain ch payload) :=
  inferInstanceAs (Decidable (_ ∧ ∃ frame, frame ∈ A.frame payload ∧ _ ∧
    frame.sequenceNumber ∈ (A.buffer.held ch.buffer).map Prod.fst))

/-- The drain loop has run to its end, and what is held has arrived since the last reset. -/
structure Stored (A : Arbiter β P σ) (ch : Channel β P) : Prop extends A.Ready ch where
  arrived : ∀ x ∈ A.buffer.held ch.buffer, A.ArrivedUnder ch x.1 x.2

/-- With one slot for a number, the slots in use are at most the numbers ahead. -/
theorem Stored.holdsFuture {A : Arbiter β P σ} {ch : Channel β P} (h : A.Stored ch)
    (ha : ∀ x ∈ A.buffer.held ch.buffer, u32 (ch.sequence.lastSequenceNumber + 1) < x.1)
    (hn : ((A.buffer.held ch.buffer).map Prod.fst).Nodup) : A.HoldsFuture ch where
  ahead := ha
  nodup := hn
  card_le := by
    rw [← Multiset.card_map Prod.fst, ← Multiset.toFinset_card_of_nodup hn]
    apply Finset.card_le_card
    intro n hmem
    rw [Multiset.mem_toFinset, Multiset.mem_map] at hmem
    obtain ⟨x, hx, rfl⟩ := hmem
    obtain ⟨harrived, frame, hframe, hnumber⟩ := h.arrived x hx
    refine Finset.mem_filter.2 ⟨?_, ha x hx⟩
    rw [List.mem_toFinset, List.mem_map]
    exact ⟨frame, List.mem_filterMap.2 ⟨x.2, harrived, hframe⟩, hnumber⟩

/-- Draining takes packets out of the buffer and leaves the history of arrivals alone. -/
theorem drain_held (A : Arbiter β P σ) (feed : Priority) (fuel : Nat) (st : Channel β P × σ) :
    A.buffer.held (A.drain feed fuel st).1.buffer ≤ A.buffer.held st.1.buffer ∧
      (A.drain feed fuel st).1.epoch.arrived = st.1.epoch.arrived := by
  induction fuel generalizing st with
  | zero => exact ⟨le_refl _, rfl⟩
  | succ fuel ih =>
    rw [drain]
    split
    · simp only
      split
      · next message buffer hget =>
        obtain ⟨hle, harrived⟩ := ih (A.parseMessage feed
          (u32 (st.1.sequence.lastSequenceNumber + 1)) message
          ({ st.1 with buffer := buffer }, st.2))
        refine ⟨hle.trans ?_, harrived⟩
        rw [A.buffer.get_eq_some _ _ _ _ hget]
        exact Multiset.le_cons_self _ _
      · exact ⟨le_refl _, rfl⟩
    · exact ⟨le_refl _, rfl⟩

/-- After the drain loop the numbers that are held lie beyond the next one, provided that they
were beyond the last one, each in one slot. -/
theorem drain_future (A : Arbiter β P σ) (feed : Priority) (st : Channel β P × σ)
    (h : A.Received st.1)
    (ha : ∀ x ∈ A.buffer.held st.1.buffer, st.1.sequence.lastSequenceNumber < x.1)
    (hn : ((A.buffer.held st.1.buffer).map Prod.fst).Nodup) :
    let st' := A.drain feed ((A.buffer.held st.1.buffer).card + 1) st
    (∀ x ∈ A.buffer.held st'.1.buffer, u32 (st'.1.sequence.lastSequenceNumber + 1) < x.1) ∧
      ((A.buffer.held st'.1.buffer).map Prod.fst).Nodup := by
  intro st'
  by_cases h0 : st.1.sequence.firstSequenceNumber = 0
  · have hst' : st' = st := by
      simp only [st', Arbiter.drain, h0, ne_eq, not_true_eq_false, if_false]
    have hempty := (h.idle h0).2
    rw [hst', hempty]
    exact ⟨fun x hx => absurd hx (Multiset.notMem_zero x), Multiset.nodup_zero⟩
  · obtain ⟨tail, htail, hnumbers, hend, hready⟩ :=
      drain_spec A feed _ st h0 h.last_lt h.held (Nat.lt_succ_self _)
    have hheld : A.buffer.held st.1.buffer = tail + A.buffer.held st'.1.buffer := htail.held
    rw [hheld, Multiset.map_add, Multiset.nodup_add] at hn
    obtain ⟨-, hrest, hdisj⟩ := hn
    refine ⟨?_, hrest⟩
    intro x hx
    have hlast := ha x (by rw [hheld]; exact Multiset.mem_add.2 (.inr hx))
    have hlt := (hready.held x hx).2
    have htaken : x.1 ∉ List.range' (st.1.sequence.lastSequenceNumber + 1) tail.length := by
      intro hmem
      rw [← hnumbers] at hmem
      exact Multiset.disjoint_left.1 hdisj (by simpa using hmem) (Multiset.mem_map_of_mem _ hx)
    have hnext : st'.1.sequence.lastSequenceNumber + 1 ≠ x.1 := by
      intro he
      refine hready.next_not_held (by rw [hend]; exact h0) x.2 ?_
      rw [he]
      exact hx
    have hend' : st'.1.sequence.lastSequenceNumber =
        st.1.sequence.lastSequenceNumber + tail.length := by
      rw [hend]
    rw [List.mem_range'_1] at htaken
    rw [u32, Nat.mod_eq_of_lt (by omega)]
    omega

/-- A packet that is held keeps the channel ready: the next one is still missing. -/
theorem Ready.keep {A : Arbiter β P σ} {ch : Channel β P} (h : A.Ready ch)
    (hfree : A.buffer.hasFree ch.buffer = true) {n : Nat} (p : P)
    (h0 : ch.sequence.firstSequenceNumber ≠ 0) (hlt : n < 2 ^ 32)
    (hahead : u32 (ch.sequence.lastSequenceNumber + 1) < n) :
    A.Ready { ch with buffer := A.buffer.keep ch.buffer n p } where
  idle hi := absurd hi h0
  last_lt := h.last_lt
  held x hx := by
    cases (A.buffer.mem_keep hfree x).1 hx with
    | inl hx =>
      rw [hx]
      exact ⟨Nat.zero_lt_of_lt hahead, hlt⟩
    | inr hx => exact h.held x hx
  next _ := by
    refine (A.buffer.get_eq_none _ _).2 ?_
    intro q hq
    cases (A.buffer.mem_keep hfree _).1 hq with
    | inl he =>
      rw [Prod.mk.injEq] at he
      exact absurd he.1 (Nat.ne_of_lt hahead)
    | inr hq => exact (A.buffer.get_eq_none _ _).1 (h.next h0) q hq

/-- A packet that is held takes a slot, and nothing else happens. -/
theorem Ready.dispatch_hold {A : Arbiter β P σ} (hA : A.Numbered) {st : Channel β P × σ}
    (h : A.Ready st.1) (hfree : A.buffer.hasFree st.1.buffer = true) (feed : Priority) {p : P}
    {frame : Frame} (hframe : A.frame p = some frame)
    (hhold : (A.holdDrop st.1.sequence frame.sequenceNumber).1 = true) :
    A.dispatch feed p st =
      ({ st.1.arrive p with
        buffer := A.buffer.keep st.1.buffer frame.sequenceNumber p }, st.2) := by
  obtain ⟨hdecided, hahead⟩ := holdDrop_of_hold hhold
  obtain ⟨h0, -⟩ := holdDrop_hold hhold
  have hreceive : A.receive feed p (st.1.arrive p, st.2) = ({ st.1.arrive p with
      buffer := A.buffer.keep st.1.buffer frame.sequenceNumber p }, st.2) := by
    have hseq : (st.1.arrive p).sequence = st.1.sequence := rfl
    have hbuf : (st.1.arrive p).buffer = st.1.buffer := rfl
    simp only [receive, hframe, hseq, hdecided, Bool.false_eq_true, if_false, if_true, hbuf]
  have harrive : A.Ready (st.1.arrive p) := h.congr rfl rfl
  have hkeep := harrive.keep hfree p h0 (hA p frame hframe) hahead
  rw [dispatch_free hfree, hreceive, hkeep.drain_eq]

/-- A packet that is held once more takes a second slot. -/
theorem not_holdsFuture_of_heldAgain {A : Arbiter β P σ} (hA : A.Numbered) {st : Channel β P × σ}
    (h : A.Ready st.1) (feed : Priority) {p : P} (hagain : A.HeldAgain st.1 p) :
    ¬ A.HoldsFuture (A.dispatch feed p st).1 := by
  obtain ⟨hfree, frame, hframe, hhold, hmem⟩ := hagain
  intro hfuture
  have hn := hfuture.nodup
  rw [h.dispatch_hold hA hfree feed hframe hhold] at hn
  change ((A.buffer.held
    (A.buffer.keep st.1.buffer frame.sequenceNumber p)).map Prod.fst).Nodup at hn
  rw [A.buffer.held_keep _ _ _ hfree, Multiset.map_cons, Multiset.nodup_cons] at hn
  exact hn.1 hmem

/-- Every other packet keeps the buffer to packets still to come. -/
theorem dispatch_future {A : Arbiter β P σ} (hA : A.Numbered) {st : Channel β P × σ}
    (h : A.Ready st.1) (feed : Priority) {p : P}
    (ha : ∀ x ∈ A.buffer.held st.1.buffer, u32 (st.1.sequence.lastSequenceNumber + 1) < x.1)
    (hn : ((A.buffer.held st.1.buffer).map Prod.fst).Nodup) (hagain : ¬ A.HeldAgain st.1 p) :
    let st' := A.dispatch feed p st
    (∀ x ∈ A.buffer.held st'.1.buffer, u32 (st'.1.sequence.lastSequenceNumber + 1) < x.1) ∧
      ((A.buffer.held st'.1.buffer).map Prod.fst).Nodup := by
  intro st'
  cases hfree : A.buffer.hasFree st.1.buffer with
  | false =>
    have hempty : A.buffer.held st'.1.buffer = 0 := by
      simp only [st', dispatch_full hfree]
      exact A.buffer.held_clear _
    rw [hempty]
    exact ⟨fun x hx => absurd hx (Multiset.notMem_zero x), Multiset.nodup_zero⟩
  | true =>
    have harrive : A.Ready (st.1.arrive p) := h.congr rfl rfl
    have hst' : st' = _ := dispatch_free hfree feed p
    obtain he | ⟨frame, hframe, -, ⟨hhold, -⟩ | ⟨hnext, he⟩⟩ :=
      A.receive_cases feed p (st.1.arrive p, st.2)
    · -- dropped
      rw [hst', he, harrive.drain_eq]
      exact ⟨ha, hn⟩
    · -- held, under a number that has no slot yet
      have hnew : frame.sequenceNumber ∉ (A.buffer.held st.1.buffer).map Prod.fst :=
        fun hmem => hagain ⟨hfree, frame, hframe, hhold, hmem⟩
      simp only [st']
      rw [h.dispatch_hold hA hfree feed hframe hhold]
      change (∀ x ∈ A.buffer.held (A.buffer.keep st.1.buffer frame.sequenceNumber p),
        u32 (st.1.sequence.lastSequenceNumber + 1) < x.1) ∧
          ((A.buffer.held (A.buffer.keep st.1.buffer frame.sequenceNumber p)).map Prod.fst).Nodup
      rw [A.buffer.held_keep _ _ _ hfree, Multiset.map_cons, Multiset.nodup_cons]
      refine ⟨?_, hnew, hn⟩
      intro x hx
      cases Multiset.mem_cons.1 hx with
      | inl hx =>
        rw [hx]
        exact (holdDrop_of_hold hhold).2
      | inr hx => exact ha x hx
    · -- parsed, and followed by what the drain loop finds
      rw [hst', he]
      refine drain_future A feed _ (harrive.parseMessage feed p (hA p frame hframe)) ?_ hn
      intro x hx
      cases hnext with
      | inl h0 =>
        have hempty : A.buffer.held st.1.buffer = 0 := (h.idle h0).2
        have hx : x ∈ A.buffer.held st.1.buffer := hx
        rw [hempty] at hx
        exact absurd hx (Multiset.notMem_zero x)
      | inr hn' =>
        have hlt := ha x hx
        change frame.sequenceNumber < x.1
        rw [hn']
        exact hlt

/-- What is held has arrived since the last reset. -/
theorem Stored.dispatch {A : Arbiter β P σ} (hA : A.Numbered) {st : Channel β P × σ}
    (h : A.Stored st.1) (feed : Priority) (p : P) : A.Stored (A.dispatch feed p st).1 := by
  refine ⟨dispatch_ready hA feed p st h.toReady, ?_⟩
  have harrive : ∀ x ∈ A.buffer.held st.1.buffer, A.ArrivedUnder (st.1.arrive p) x.1 x.2 :=
    fun x hx => (h.arrived x hx).arrive p
  cases hfree : A.buffer.hasFree st.1.buffer with
  | false =>
    intro x hx
    rw [dispatch_full hfree] at hx
    have hempty : A.buffer.held (A.buffer.clear st.1.buffer) = 0 := A.buffer.held_clear _
    have hx : x ∈ A.buffer.held (A.buffer.clear st.1.buffer) := hx
    rw [hempty] at hx
    exact absurd hx (Multiset.notMem_zero x)
  | true =>
    rw [dispatch_free hfree]
    generalize hr : A.receive feed p (st.1.arrive p, st.2) = r
    have hreceive : ∀ x ∈ A.buffer.held r.1.buffer, A.ArrivedUnder r.1 x.1 x.2 := by
      subst hr
      obtain he | ⟨frame, hframe, -, ⟨-, he⟩ | ⟨-, he⟩⟩ :=
        A.receive_cases feed p (st.1.arrive p, st.2)
      · rw [he]
        exact harrive
      · rw [he]
        intro x hx
        cases (A.buffer.mem_keep hfree x).1 hx with
        | inl hx =>
          rw [hx]
          exact ⟨List.mem_append_right _ (List.mem_singleton.2 rfl), frame, hframe, rfl⟩
        | inr hx => exact harrive x hx
      · rw [he]
        exact harrive
    obtain ⟨hle, harrived⟩ := A.drain_held feed ((A.buffer.held r.1.buffer).card + 1) r
    intro x hx
    obtain ⟨hmem, hframe⟩ := hreceive x (Multiset.mem_of_le hle hx)
    exact ⟨by rw [harrived]; exact hmem, hframe⟩

theorem stored_fresh (A : Arbiter β P σ) (b : β) (hb : A.buffer.held b = 0) :
    A.Stored { buffer := b } := by
  refine ⟨ready_fresh A b hb [], ?_⟩
  intro x hx
  have hx : x ∈ A.buffer.held b := hx
  rw [hb] at hx
  exact absurd hx (Multiset.notMem_zero x)

/-- Over every run: every slot holds a packet still to come, and no number has two, exactly as
long as no packet is held under a number that has a slot already. -/
theorem reorder_buffer_holds_future_iff (B : KeyedBuffer β (List UInt8)) (filter : Nat)
    (parse : Priority → List UInt8 → σ → σ) (reset : σ → σ) (b : β) (s : σ)
    (events : List (Priority × List UInt8)) (hb : B.held b = 0) :
    let A := ofBytes B filter parse reset
    (∀ before after, events = before ++ after →
        A.HoldsFuture (A.run before ({ buffer := b }, s)).1) ↔
      Along (fun st e => A.dispatch e.1 e.2 st) (fun st e => ¬ A.HeldAgain st.1 e.2) events
        ({ buffer := b }, s) := by
  intro A
  have hA : A.Numbered := ofBytes_numbered B filter parse reset
  refine always_iff (fun st : Channel β (List UInt8) × σ => A.Stored st.1)
    (fun st => A.HoldsFuture st.1) ?_ ?_ ?_ events
    (stored_fresh A b hb) ?_
  · exact fun st e h => h.dispatch hA e.1 e.2
  · intro st e h hfuture hagain
    obtain ⟨ha, hn⟩ := dispatch_future hA h.toReady e.1 hfuture.ahead hfuture.nodup hagain
    exact (h.dispatch hA e.1 e.2).holdsFuture ha hn
  · intro st e h hfuture hagain
    exact not_holdsFuture_of_heldAgain hA h.toReady e.1 hagain hfuture
  · have hempty : A.buffer.held b = 0 := hb
    refine (stored_fresh A b hb).holdsFuture ?_ ?_
    · intro x hx
      have hx : x ∈ A.buffer.held b := hx
      rw [hempty] at hx
      exact absurd hx (Multiset.notMem_zero x)
    · change ((A.buffer.held b).map Prod.fst).Nodup
      rw [hempty]
      exact Multiset.nodup_zero

/-- Packets that overtake each other, with a copy of one that is no longer held. -/
theorem reorder_buffer_holds_future_overtaking :
    let packet := fun n : Nat => toLittleEndian 4 n ++ toLittleEndian 8 0
    let A : Arbiter _ _ (List Nat) := ofBytes (KeyedBuffer.slots _ 10) 0
      (fun _ p s => s ++ [ofLittleEndian (p.take 4)]) id
    A.HoldsFuture (A.run [(.primary, packet 1), (.primary, packet 3), (.primary, packet 2),
      (.secondary, packet 3), (.secondary, packet 5)] ({ buffer := [] }, [])).1 := by
  intro packet A
  exact (reorder_buffer_holds_future_iff (KeyedBuffer.slots _ 10) 0
    (fun _ p s => s ++ [ofLittleEndian (p.take 4)]) id [] ([] : List Nat)
    [(.primary, packet 1), (.primary, packet 3), (.primary, packet 2), (.secondary, packet 3),
      (.secondary, packet 5)] rfl).2 (by decide +kernel) _ [] (by simp)

/-- Both copies of packet 3 wait for packet 2: one of them stays behind. -/
theorem reorder_buffer_keeps_stale_copy :
    let packet := fun n : Nat => toLittleEndian 4 n ++ toLittleEndian 8 0
    let A : Arbiter _ _ (List Nat) := ofBytes (KeyedBuffer.slots _ 10) 0
      (fun _ p s => s ++ [ofLittleEndian (p.take 4)]) id
    let events := [(.primary, packet 1), (.primary, packet 3), (.secondary, packet 3),
      (.primary, packet 2)]
    let st := A.run events ({ buffer := [] }, [])
    st.1.buffer = [(3, packet 3)] ∧ st.1.sequence.lastSequenceNumber = 3 ∧ st.2 = [1, 2, 3] ∧
      ¬ A.HoldsFuture st.1 := by
  intro packet A events st
  have hbuffer : st.1.buffer = [(3, packet 3)] := by decide +kernel
  have hlast : st.1.sequence.lastSequenceNumber = 3 := by decide +kernel
  refine ⟨hbuffer, hlast, by decide +kernel, ?_⟩
  intro h
  have hahead := h.ahead (3, packet 3) (by rw [hbuffer]; exact Multiset.mem_singleton_self _)
  rw [hlast] at hahead
  exact absurd hahead (by decide)

end Arbiter
end RoqCme.MarketData
