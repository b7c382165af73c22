import RoqCme.Lib.Unwinding
import RoqCme.MarketData.FullBuffer
import RoqCme.MarketData.ResetOrder
import RoqCme.MarketData.SkippedPackets
import RoqCme.MarketData.StreamIds

/-! The A and B feeds are redundant: whatever they lose, repeat or reorder, as long as every packet
arrives on one of them before the buffer is full, the updates are those of the packets parsed one
after the other. Only the stream ids tell which feed a packet came from. -/
namespace RoqCme.MarketData
open RoqCme.Lib RoqCme.Mdp
variable {β P σ τ : Type*}

namespace Arbiter

section View
variable (A : Arbiter β P σ) (view : σ → τ) (apply : P → τ → τ)

/-- Since the reset the channel has parsed `start` first, the handlers have seen what was parsed and
nothing else, and these payloads have arrived. -/
structure Follows (v : τ) (start : Nat × P) (arrived : List P) (st : Channel β P × σ) : Prop where
  handlers : view st.2 = st.1.epoch.parsed.foldl (fun v x => apply x.2 v) v
  begins : ∃ tail, st.1.epoch.parsed = start :: tail
  arrived : st.1.epoch.arrived = arrived

variable {A view apply} {v : τ} {start : Nat × P} {arrived : List P} {st : Channel β P × σ}

theorem Follows.parseMessage (hparse : ∀ feed p s, view (A.parse feed p s) = apply p (view s))
    (h : Follows view apply v start arrived st) (feed : Priority) (n : Nat) (p : P) :
    Follows view apply v start arrived (A.parseMessage feed n p st) where
  handlers := by
    simp only [Arbiter.parseMessage, List.foldl_append, List.foldl_cons, List.foldl_nil, hparse,
      h.handlers]
    rfl
  begins := by
    obtain ⟨tail, htail⟩ := h.begins
    refine ⟨tail ++ [(n, p)], ?_⟩
    rw [← List.cons_append, ← htail]
    rfl
  arrived := h.arrived

theorem Follows.drain (hparse : ∀ feed p s, view (A.parse feed p s) = apply p (view s))
    (h : Follows view apply v start arrived st) (feed : Priority) (fuel : Nat) :
    Follows view apply v start arrived (A.drain feed fuel st) := by
  induction fuel generalizing st with
  | zero => exact h
  | succ fuel ih =>
    simp only [Arbiter.drain]
    split
    · split
      · next message buffer hget =>
        apply ih
        have hbuffer : Follows view apply v start arrived ({ st.1 with buffer := buffer }, st.2) :=
          ⟨h.handlers, h.begins, h.arrived⟩
        exact hbuffer.parseMessage hparse feed _ message
      · exact h
    · exact h

theorem Follows.dispatch (hparse : ∀ feed p s, view (A.parse feed p s) = apply p (view s))
    (h : Follows view apply v start arrived st) (hfree : A.buffer.hasFree st.1.buffer = true)
    (feed : Priority) (p : P) :
    Follows view apply v start (arrived ++ [p]) (A.dispatch feed p st) := by
  rw [dispatch_free hfree]
  apply Follows.drain hparse
  have harrive : Follows view apply v start (arrived ++ [p]) (st.1.arrive p, st.2) :=
    ⟨h.handlers, h.begins, by rw [← h.arrived]; rfl⟩
  obtain he | ⟨frame, -, -, ⟨-, he⟩ | ⟨-, he⟩⟩ := A.receive_cases feed p (st.1.arrive p, st.2)
  · rw [he]
    exact harrive
  · rw [he]
    exact ⟨harrive.handlers, harrive.begins, harrive.arrived⟩
  · rw [he]
    exact harrive.parseMessage hparse feed frame.sequenceNumber p

/-- A slot was free at each packet of the run. -/
def NeverFull (A : Arbiter β P σ) (events : List (Priority × P)) (st : Channel β P × σ) : Prop :=
  Along (fun st e => A.dispatch e.1 e.2 st) (fun st _ => A.buffer.hasFree st.1.buffer = true) events
    st

instance (A : Arbiter β P σ) (events : List (Priority × P)) (st : Channel β P × σ) :
    Decidable (A.NeverFull events st) :=
  inferInstanceAs (Decidable (Along _ _ events st))

theorem Follows.run (hparse : ∀ feed p s, view (A.parse feed p s) = apply p (view s))
    (events : List (Priority × P)) (h : Follows view apply v start arrived st)
    (hfree : A.NeverFull events st) :
    Follows view apply v start (arrived ++ events.map Prod.snd) (A.run events st) := by
  induction events generalizing arrived st with
  | nil => simpa [Arbiter.run] using h
  | cons e events ih =>
    have hrest := ih (h.dispatch hparse hfree.1 e.1 e.2) hfree.2
    rw [List.append_assoc] at hrest
    exact hrest

end View

/-- What both feeds carry: the packet of each number from `first` to `last`. -/
structure Carries (A : Arbiter β P σ) (sent : Nat → P) (first last : Nat)
    (events : List (Priority × Nat)) : Prop where
  starts : (events.head?.map Prod.snd) = some first
  within : ∀ e ∈ events, 1 ≤ e.2 ∧ e.2 ≤ last
  complete : ∀ n, first ≤ n → n ≤ last → ∃ feed, (feed, n) ∈ events
  numbered : ∀ n, 1 ≤ n → n ≤ last → ∃ frame, A.frame (sent n) = some frame ∧
    frame.sequenceNumber = n
  last_le : last ≤ maxSequenceNumber

def copies (sent : Nat → P) (events : List (Priority × Nat)) : List (Priority × P) :=
  events.map fun e => (e.1, sent e.2)

theorem Carries.arrived {A : Arbiter β P σ} {sent : Nat → P} {first last : Nat}
    {events : List (Priority × Nat)} (hc : A.Carries sent first last events) {ch : Channel β P}
    (harrived : ch.epoch.arrived = (copies sent events).map Prod.snd) {n : Nat} {p : P}
    (h : A.ArrivedUnder ch n p) : p = sent n ∧ n ≤ last := by
  obtain ⟨hmem, frame, hframe, hn⟩ := h
  rw [harrived, copies, List.map_map, List.mem_map] at hmem
  obtain ⟨e, he, rfl⟩ := hmem
  obtain ⟨hpos, hle⟩ := hc.within e he
  obtain ⟨frame', hframe', hn'⟩ := hc.numbered e.2 hpos hle
  have hsame : some frame = some frame' := hframe.symm.trans hframe'
  cases hsame
  rw [← hn, hn']
  exact ⟨rfl, hle⟩

theorem Carries.arrivedUnder {A : Arbiter β P σ} {sent : Nat → P} {first last : Nat}
    {events : List (Priority × Nat)} (hc : A.Carries sent first last events) {ch : Channel β P}
    (harrived : ch.epoch.arrived = (copies sent events).map Prod.snd) {n : Nat}
    (hfirst : first ≤ n) (hlast : n ≤ last) : A.ArrivedUnder ch n (sent n) := by
  obtain ⟨feed, hmem⟩ := hc.complete n hfirst hlast
  obtain ⟨hpos, hle⟩ := hc.within (feed, n) hmem
  refine ⟨?_, hc.numbered n hpos hle⟩
  rw [harrived, copies, List.map_map]
  exact List.mem_map_of_mem hmem

/-- Nothing that has arrived is left behind: the channel ends at the last number. -/
theorem Carries.sequence {A : Arbiter β P σ} {sent : Nat → P} {first last : Nat}
    {events : List (Priority × Nat)} (hc : A.Carries sent first last events)
    (hfilter : A.filterSnapshotFromIncremental ≤ first) {ch : Channel β P}
    (harrived : ch.epoch.arrived = (copies sent events).map Prod.snd) (hinv : A.Invariant ch)
    (hbegins : ∃ p tail, ch.epoch.parsed = (first, p) :: tail) : ch.sequence = ⟨first, last⟩ := by
  obtain ⟨p, tail, hparsed⟩ := hbegins
  have hnumbers := hinv.sound.numbers
  rw [hparsed, List.map_cons, Sequence.numbers] at hnumbers
  have h0 : ch.sequence.firstSequenceNumber ≠ 0 := by
    intro h0
    rw [if_pos h0] at hnumbers
    cases hnumbers
  have hfl := hinv.sound.first_le_last
  obtain ⟨k, hk⟩ : ∃ k, ch.sequence.lastSequenceNumber + 1 - ch.sequence.firstSequenceNumber =
      k + 1 := ⟨ch.sequence.lastSequenceNumber - ch.sequence.firstSequenceNumber, by omega⟩
  rw [if_neg h0, hk, List.range'_succ, List.cons.injEq] at hnumbers
  have hfirst : ch.sequence.firstSequenceNumber = first := hnumbers.1.symm
  have hle : ch.sequence.lastSequenceNumber ≤ last := by
    have hmem : ch.sequence.lastSequenceNumber ∈ ch.epoch.parsed.map Prod.fst := by
      rw [hinv.sound.numbers, Sequence.numbers, if_neg h0, List.mem_range'_1]
      omega
    obtain ⟨x, hx, hlast⟩ := List.mem_map.1 hmem
    have harr := hinv.sound.parsed_arrived x hx
    rw [hlast] at harr
    exact (hc.arrived harrived harr).2
  have hge : last ≤ ch.sequence.lastSequenceNumber := by
    by_contra hlt
    have harr := hc.arrivedUnder harrived (n := ch.sequence.lastSequenceNumber + 1) (by omega)
      (by omega)
    exact hinv.settled h0 _ (hinv.waiting _ _ harr (by omega) (Nat.lt_succ_self _))
  calc ch.sequence = ⟨ch.sequence.firstSequenceNumber, ch.sequence.lastSequenceNumber⟩ := rfl
    _ = ⟨first, last⟩ := by rw [hfirst, Nat.le_antisymm hle hge]

end Arbiter

section Gateway
variable {β Qp Qo : Type}

end Gateway
end RoqCme.MarketData
