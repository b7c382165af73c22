import RoqCme.MarketData.Arbitration

/-! What a full reorder buffer does to a channel. A slot is taken before the frame is looked at, so a
packet that needs none is lost with the others when there is none. All numbers are considered. -/
namespace RoqCme.MarketData
open RoqCme.Lib RoqCme.Mdp
variable {β P σ : Type*}

namespace Arbiter

/-- The frames have 32-bit numbers. -/
def Numbered (A : Arbiter β P σ) : Prop :=
  ∀ payload frame, A.frame payload = some frame → frame.sequenceNumber < 2 ^ 32

/-- An idle channel holds nothing, and what is held has a 32-bit number other than 0. -/
structure Received (A : Arbiter β P σ) (ch : Channel β P) : Prop where
  idle : ch.sequence.firstSequenceNumber = 0 →
    ch.sequence.lastSequenceNumber = 0 ∧ A.buffer.held ch.buffer = 0
  last_lt : ch.sequence.lastSequenceNumber < 2 ^ 32
  held : ∀ x ∈ A.buffer.held ch.buffer, 0 < x.1 ∧ x.1 < 2 ^ 32

/-- Between two packets the next number is not held. -/
structure Ready (A : Arbiter β P σ) (ch : Channel β P) : Prop extends A.Received ch where
  next : ch.sequence.firstSequenceNumber ≠ 0 →
    A.buffer.get ch.buffer (u32 (ch.sequence.lastSequenceNumber + 1)) = none

/-- From one state to the next these packets were parsed in order, and these were taken from the
buffer. -/
structure Parses (A : Arbiter β P σ) (feed : Priority) (st st' : Channel β P × σ)
    (parsed : List (Nat × P)) (taken : List (Nat × P)) : Prop where
  log : st'.1.epoch.parsed = st.1.epoch.parsed ++ parsed
  handlers : st'.2 = parsed.foldl (fun s x => A.parse feed x.2 s) st.2
  past : st'.1.past = st.1.past
  held : A.buffer.held st.1.buffer = (taken : Multiset (Nat × P)) + A.buffer.held st'.1.buffer

/-- The number after the largest one is 0. -/
theorem u32_succ_of_pos {n : Nat} (hn : n < 2 ^ 32) (hpos : 0 < u32 (n + 1)) :
    u32 (n + 1) = n + 1 := by
  rw [u32] at hpos ⊢
  rw [Nat.mod_eq_of_lt]
  by_contra hge
  rw [show n + 1 = 2 ^ 32 by omega, Nat.mod_self] at hpos
  exact absurd hpos (Nat.lt_irrefl 0)

/-- The drain loop parses what is held under the following numbers, one packet for each, until a number
is missing. -/
theorem drain_spec (A : Arbiter β P σ) (feed : Priority) (fuel : Nat) (st : Channel β P × σ)
    (h0 : st.1.sequence.firstSequenceNumber ≠ 0) (hlast : st.1.sequence.lastSequenceNumber < 2 ^ 32)
    (hheld : ∀ x ∈ A.buffer.held st.1.buffer, 0 < x.1 ∧ x.1 < 2 ^ 32)
    (hfuel : (A.buffer.held st.1.buffer).card < fuel) :
    ∃ tail, A.Parses feed st (A.drain feed fuel st) tail tail ∧
      tail.map Prod.fst = List.range' (st.1.sequence.lastSequenceNumber + 1) tail.length ∧
      (A.drain feed fuel st).1.sequence =
        { firstSequenceNumber := st.1.sequence.firstSequenceNumber
          lastSequenceNumber := st.1.sequence.lastSequenceNumber + tail.length } ∧
      A.Ready (A.drain feed fuel st).1 := by
  induction fuel generalizing st with
  | zero => omega
  | succ fuel ih =>
    cases hget : A.buffer.get st.1.buffer (u32 (st.1.sequence.lastSequenceNumber + 1)) with
    | none =>
      have hstop : A.drain feed (fuel + 1) st = st := by
        simp only [drain, h0, ne_eq, not_false_eq_true, if_true, hget]
      rw [hstop]
      refine ⟨[], ⟨by simp, rfl, rfl, by simp⟩, rfl, rfl, ?_⟩
      exact ⟨⟨fun h => absurd h h0, hlast, hheld⟩, fun _ => hget⟩
    | some r =>
      obtain ⟨p, b⟩ := r
      have hcons := A.buffer.get_eq_some _ _ _ _ hget
      have hcard := A.buffer.card_get hget
      obtain ⟨hpos, hlt⟩ := hheld _ (by rw [hcons]; exact Multiset.mem_cons_self _ _)
      have hn := u32_succ_of_pos hlast hpos
      rw [hn] at hget hcons hlt
      let st1 := A.parseMessage feed (st.1.sequence.lastSequenceNumber + 1) p
        ({ st.1 with buffer := b }, st.2)
      have hseq : st1.1.sequence = { firstSequenceNumber := st.1.sequence.firstSequenceNumber
                                     lastSequenceNumber := st.1.sequence.lastSequenceNumber + 1 } := by
        simp only [st1, parseMessage, Channel.updateSequenceNumber, h0, if_false]
      have hstep : A.drain feed (fuel + 1) st = A.drain feed fuel st1 := by
        simp only [drain, h0, ne_eq, not_false_eq_true, if_true, hget, hn, st1]
      obtain ⟨tail, htail, hnumbers, hend, hready⟩ := ih st1 (by rw [hseq]; exact h0)
        (by rw [hseq]; exact hlt)
        (fun x hx => hheld x (by rw [hcons]; exact Multiset.mem_cons_of_mem hx))
        (by simp only [st1, parseMessage, Channel.updateSequenceNumber]; omega)
      rw [hstep]
      refine ⟨(st.1.sequence.lastSequenceNumber + 1, p) :: tail, ⟨?_, ?_, htail.past, ?_⟩, ?_, ?_,
        hready⟩
      · rw [htail.log]
        simp [st1, parseMessage, Channel.updateSequenceNumber]
      · rw [htail.handlers]
        rfl
      · rw [hcons, ← Multiset.cons_coe, Multiset.cons_add, ← htail.held]
        rfl
      · rw [List.map_cons, hnumbers, hseq, List.length_cons, List.range'_succ]
      · rw [hend, hseq, List.length_cons]
        simp only [Sequence.mk.injEq, true_and]
        omega

theorem Received.drain {A : Arbiter β P σ} {st : Channel β P × σ} (h : A.Received st.1)
    (feed : Priority) {fuel : Nat} (hfuel : (A.buffer.held st.1.buffer).card < fuel) :
    A.Ready (A.drain feed fuel st).1 := by
  by_cases h0 : st.1.sequence.firstSequenceNumber = 0
  · have hstop : A.drain feed fuel st = st := by
      cases fuel with
      | zero => rfl
      | succ fuel => simp [Arbiter.drain, h0]
    rw [hstop]
    exact ⟨h, fun hne => absurd h0 hne⟩
  · obtain ⟨tail, -, -, -, hready⟩ := drain_spec A feed fuel st h0 h.last_lt h.held hfuel
    exact hready

theorem Ready.drain_eq {A : Arbiter β P σ} {st : Channel β P × σ} (h : A.Ready st.1)
    (feed : Priority) (fuel : Nat) : A.drain feed fuel st = st := by
  cases fuel with
  | zero => rfl
  | succ fuel =>
    by_cases h0 : st.1.sequence.firstSequenceNumber = 0
    · simp [Arbiter.drain, h0]
    · simp [Arbiter.drain, h0, h.next h0]

theorem holdDrop_hold {A : Arbiter β P σ} {s : Sequence} {n : Nat}
    (h : (A.holdDrop s n).1 = true) : s.firstSequenceNumber ≠ 0 ∧ 0 < n := by
  rw [holdDrop] at h
  split at h
  · cases h
  · split at h
    · next h0 =>
      have hgt := of_decide_eq_true h
      exact ⟨h0, by omega⟩
    · cases h

theorem Received.parseMessage {A : Arbiter β P σ} {st : Channel β P × σ} (h : A.Received st.1)
    (feed : Priority) {n : Nat} (p : P) (hn : n < 2 ^ 32) :
    A.Received (A.parseMessage feed n p st).1 where
  idle h0 := by
    simp only [Arbiter.parseMessage, Channel.updateSequenceNumber] at h0 ⊢
    split at h0
    · next hfirst => exact ⟨h0, (h.idle hfirst).2⟩
    · next hfirst => exact absurd h0 hfirst
  last_lt := hn
  held := h.held

theorem Received.receive {A : Arbiter β P σ} (hA : A.Numbered) {ch : Channel β P}
    (h : A.Received ch) (hfree : A.buffer.hasFree ch.buffer = true) (feed : Priority) (p : P)
    (s : σ) : A.Received (A.receive feed p (ch, s)).1 := by
  cases hframe : A.frame p with
  | none =>
    simp only [Arbiter.receive, hframe]
    exact h
  | some frame =>
    have hlt := hA p frame hframe
    simp only [Arbiter.receive, hframe]
    split
    · exact h
    · split
      · next hhold =>
        obtain ⟨h0, hpos⟩ := holdDrop_hold hhold
        refine ⟨fun hi => absurd hi h0, h.last_lt, ?_⟩
        intro x hx
        rw [A.buffer.mem_keep hfree] at hx
        cases hx with
        | inl hx =>
          rw [hx]
          exact ⟨hpos, hlt⟩
        | inr hx => exact h.held x hx
      · exact h.parseMessage feed p hlt

theorem Ready.congr {A : Arbiter β P σ} {ch ch' : Channel β P} (h : A.Ready ch)
    (hs : ch'.sequence = ch.sequence) (hb : ch'.buffer = ch.buffer) : A.Ready ch' := by
  constructor
  · constructor
    · rw [hs, hb]
      exact h.idle
    · rw [hs]
      exact h.last_lt
    · rw [hb]
      exact h.held
  · rw [hs, hb]
    exact h.next

theorem ready_fresh (A : Arbiter β P σ) (b : β) (hb : A.buffer.held b = 0)
    (past : List (Epoch P)) : A.Ready { buffer := b, past := past } where
  idle _ := ⟨rfl, hb⟩
  last_lt := Nat.two_pow_pos 32
  held x hx := by
    have hx : x ∈ A.buffer.held b := hx
    rw [hb] at hx
    cases hx
  next h := absurd rfl h

theorem dispatch_ready {A : Arbiter β P σ} (hA : A.Numbered) (feed : Priority) (p : P)
    (st : Channel β P × σ) (h : A.Ready st.1) : A.Ready (A.dispatch feed p st).1 := by
  cases hfree : A.buffer.hasFree st.1.buffer with
  | true =>
    have hb : A.buffer.hasFree (st.1.arrive p).buffer = true := hfree
    have harrive : A.Ready (st.1.arrive p) := h.congr rfl rfl
    have hreceive := harrive.toReceived.receive hA hb feed p st.2
    simp only [dispatch, hb, if_true]
    exact hreceive.drain feed (Nat.lt_succ_self _)
  | false =>
    have hb : A.buffer.hasFree (st.1.arrive p).buffer = false := hfree
    simp only [dispatch, hb, Bool.false_eq_true, if_false]
    exact ready_fresh A _ (A.buffer.held_clear _) _

theorem run_ready {A : Arbiter β P σ} (hA : A.Numbered) (events : List (Priority × P))
    (st : Channel β P × σ) (h : A.Ready st.1) : A.Ready (A.run events st).1 := by
  induction events generalizing st with
  | nil => exact h
  | cons e events ih => exact ih (A.dispatch e.1 e.2 st) (dispatch_ready hA e.1 e.2 st h)

theorem ofBytes_numbered (B : KeyedBuffer β (List UInt8)) (filter : Nat)
    (parse : Priority → List UInt8 → σ → σ) (reset : σ → σ) :
    (ofBytes B filter parse reset).Numbered := by
  intro payload frame hframe
  have hframe : Frame.parse payload = some frame := hframe
  rw [Frame.parse] at hframe
  split at hframe
  · cases hframe
  · next hlen =>
    cases hframe
    have hlt := ofLittleEndian_lt (payload.take 4)
    have htake : (payload.take 4).length = 4 := by
      rw [Frame.size] at hlen
      rw [List.length_take]
      omega
    rw [htake] at hlt
    exact hlt

/-- A packet that has been parsed already, or that is filtered, needs no slot and changes nothing. -/
theorem Ready.receive_old {A : Arbiter β P σ} {ch : Channel β P} (h : A.Ready ch) (feed : Priority)
    {p : P} {frame : Frame} (hframe : A.frame p = some frame) (s : σ)
    (hold : frame.sequenceNumber < A.filterSnapshotFromIncremental ∨
      frame.sequenceNumber ≤ ch.sequence.lastSequenceNumber ∧
        ch.sequence.lastSequenceNumber < 2 ^ 32 - 1) :
    (A.receive feed p (ch, s)).1.sequence = ch.sequence ∧
      (A.receive feed p (ch, s)).1.buffer = ch.buffer ∧
      (A.receive feed p (ch, s)).1.past = ch.past := by
  by_cases hfilter : frame.sequenceNumber < A.filterSnapshotFromIncremental
  · have hdrop : A.receive feed p (ch, s) = (ch, s) := by
      simp only [Arbiter.receive, hframe, holdDrop, hfilter, if_true]
    rw [hdrop]
    exact ⟨rfl, rfl, rfl⟩
  · obtain ⟨hle, hlast⟩ := hold.resolve_left hfilter
    by_cases h0 : ch.sequence.firstSequenceNumber = 0
    · obtain ⟨hzero, -⟩ := h.idle h0
      have hn : frame.sequenceNumber = 0 := by omega
      have hparse : A.receive feed p (ch, s) = A.parseMessage feed frame.sequenceNumber p (ch, s) := by
        simp only [Arbiter.receive, hframe, holdDrop, hfilter, if_false, h0, ne_eq,
          not_true_eq_false, Bool.false_eq_true]
      rw [hparse, hn]
      refine ⟨?_, rfl, rfl⟩
      simp only [Arbiter.parseMessage, Channel.updateSequenceNumber, h0, if_true]
      cases hs : ch.sequence with
      | mk first last =>
        rw [hs] at h0 hzero
        cases h0
        cases hzero
        rfl
    · have hnext : u32 (ch.sequence.lastSequenceNumber + 1) =
          ch.sequence.lastSequenceNumber + 1 := Nat.mod_eq_of_lt (by omega)
      have hlt : frame.sequenceNumber < ch.sequence.lastSequenceNumber + 1 := by omega
      have hdrop : A.receive feed p (ch, s) = (ch, s) := by
        simp only [Arbiter.receive, hframe, holdDrop, hfilter, if_false, h0, ne_eq,
          not_false_eq_true, if_true, hnext, hlt, decide_true]
      rw [hdrop]
      exact ⟨rfl, rfl, rfl⟩

/-- The next packet is parsed. -/
theorem receive_next {A : Arbiter β P σ} {ch : Channel β P} (feed : Priority) {p : P}
    {frame : Frame} (hframe : A.frame p = some frame) (s : σ)
    (hlt : frame.sequenceNumber < 2 ^ 32)
    (hfilter : A.filterSnapshotFromIncremental ≤ frame.sequenceNumber)
    (hn : frame.sequenceNumber = ch.sequence.lastSequenceNumber + 1) :
    A.receive feed p (ch, s) = A.parseMessage feed frame.sequenceNumber p (ch, s) := by
  have hnot : ¬ frame.sequenceNumber < A.filterSnapshotFromIncremental := by omega
  by_cases h0 : ch.sequence.firstSequenceNumber = 0
  · simp only [Arbiter.receive, hframe, holdDrop, hnot, if_false, h0, ne_eq, not_true_eq_false,
      Bool.false_eq_true]
  · have hnext : u32 (ch.sequence.lastSequenceNumber + 1) = frame.sequenceNumber := by
      rw [← hn]
      exact Nat.mod_eq_of_lt hlt
    simp only [Arbiter.receive, hframe, holdDrop, hnot, if_false, h0, ne_eq, not_false_eq_true,
      if_true, hnext, Nat.lt_irrefl, gt_iff_lt, decide_false, Bool.false_eq_true]

theorem drain_past (A : Arbiter β P σ) (feed : Priority) (fuel : Nat) (st : Channel β P × σ) :
    (A.drain feed fuel st).1.past = st.1.past := by
  induction fuel generalizing st with
  | zero => rfl
  | succ fuel ih =>
    rw [drain]
    split
    · simp only
      split
      · rw [ih]
        rfl
      · rfl
    · rfl

theorem receive_past (A : Arbiter β P σ) (feed : Priority) (p : P) (st : Channel β P × σ) :
    (A.receive feed p st).1.past = st.1.past := by
  rw [receive]
  split
  · rfl
  · simp only
    split
    · rfl
    · split
      · rfl
      · rfl

/-- The number after the last one is held nowhere, whether it has 32 bits or not. -/
theorem Ready.next_not_held {A : Arbiter β P σ} {ch : Channel β P} (h : A.Ready ch)
    (h0 : ch.sequence.firstSequenceNumber ≠ 0) (p : P) :
    (ch.sequence.lastSequenceNumber + 1, p) ∉ A.buffer.held ch.buffer := by
  intro hm
  have hlt := (h.held _ hm).2
  have hnone := (A.buffer.get_eq_none _ _).1 (h.next h0)
  rw [u32, Nat.mod_eq_of_lt hlt] at hnone
  exact hnone p hm

/-- Without a free slot the packet is not looked at. -/
theorem dispatch_full {A : Arbiter β P σ} {st : Channel β P × σ}
    (hfull : A.buffer.hasFree st.1.buffer = false) (feed : Priority) (p : P) :
    A.dispatch feed p st = A.onSequenceReset
      ({ st.1.arrive p with buffer := A.buffer.clear st.1.buffer }, st.2) := by
  have hb : A.buffer.hasFree (st.1.arrive p).buffer = false := hfull
  simp only [dispatch, hb, Bool.false_eq_true, if_false]
  rfl

theorem dispatch_free {A : Arbiter β P σ} {st : Channel β P × σ}
    (hfree : A.buffer.hasFree st.1.buffer = true) (feed : Priority) (p : P) :
    A.dispatch feed p st =
      A.drain feed ((A.buffer.held (A.receive feed p (st.1.arrive p, st.2)).1.buffer).card + 1)
        (A.receive feed p (st.1.arrive p, st.2)) := by
  have hb : A.buffer.hasFree (st.1.arrive p).buffer = true := hfree
  simp only [dispatch, hb, if_true]

theorem Ready.dispatch_old {A : Arbiter β P σ} {st : Channel β P × σ} (h : A.Ready st.1)
    (hfree : A.buffer.hasFree st.1.buffer = true) (feed : Priority) {p : P} {frame : Frame}
    (hframe : A.frame p = some frame)
    (hold : frame.sequenceNumber < A.filterSnapshotFromIncremental ∨
      frame.sequenceNumber ≤ st.1.sequence.lastSequenceNumber ∧
        st.1.sequence.lastSequenceNumber < 2 ^ 32 - 1) :
    (A.dispatch feed p st).1.sequence = st.1.sequence ∧
      (A.dispatch feed p st).1.buffer = st.1.buffer := by
  have harrive : A.Ready (st.1.arrive p) := h.congr rfl rfl
  obtain ⟨hseq, hbuf, -⟩ := harrive.receive_old feed hframe st.2 hold
  have hr : A.Ready (A.receive feed p (st.1.arrive p, st.2)).1 := harrive.congr hseq hbuf
  rw [dispatch_free hfree, hr.drain_eq]
  exact ⟨hseq, hbuf⟩

/-- The next packet is parsed and followed by what is held under the numbers after it. -/
theorem Ready.dispatch_next {A : Arbiter β P σ} {st : Channel β P × σ} (h : A.Ready st.1)
    (hfree : A.buffer.hasFree st.1.buffer = true) (feed : Priority) {p : P} {frame : Frame}
    (hframe : A.frame p = some frame) (hlt : frame.sequenceNumber < 2 ^ 32)
    (hfilter : A.filterSnapshotFromIncremental ≤ frame.sequenceNumber)
    (hn : frame.sequenceNumber = st.1.sequence.lastSequenceNumber + 1) :
    ∃ tail, A.Parses feed st (A.dispatch feed p st) ((frame.sequenceNumber, p) :: tail) tail ∧
      tail.map Prod.fst = List.range' (frame.sequenceNumber + 1) tail.length ∧
      ∀ q, (frame.sequenceNumber + tail.length + 1, q) ∉
        A.buffer.held (A.dispatch feed p st).1.buffer := by
  have hst' := dispatch_free hfree feed p
  have hr : A.receive feed p (st.1.arrive p, st.2) =
      A.parseMessage feed frame.sequenceNumber p (st.1.arrive p, st.2) :=
    receive_next feed hframe st.2 hlt hfilter hn
  generalize A.receive feed p (st.1.arrive p, st.2) = r at hst' hr
  have hfirst : r.1.sequence.firstSequenceNumber ≠ 0 := by
    rw [hr]
    simp only [parseMessage, Channel.updateSequenceNumber]
    split
    · omega
    · assumption
  have hlast : r.1.sequence.lastSequenceNumber = frame.sequenceNumber := by rw [hr]; rfl
  have hheld : r.1.buffer = st.1.buffer := by rw [hr]; rfl
  obtain ⟨tail, htail, hnumbers, hend, hready⟩ := drain_spec A feed _ r hfirst
    (by rw [hlast]; exact hlt) (by rw [hheld]; exact h.held) (Nat.lt_succ_self _)
  rw [← hst'] at htail hend hready
  refine ⟨tail, ⟨?_, ?_, ?_, ?_⟩, ?_, ?_⟩
  · rw [htail.log, hr]
    simp [parseMessage, Channel.updateSequenceNumber, Channel.arrive]
  · rw [htail.handlers, hr]
    rfl
  · rw [htail.past, hr]
    rfl
  · rw [← hheld]
    exact htail.held
  · rw [hnumbers, hlast]
  · intro q hq
    refine hready.next_not_held (by rw [hend]; exact hfirst) q ?_
    rw [hend, hlast]
    exact hq

/-- For every state that packets lead to, and every further packet. Where no slot is free the packet is
not looked at: the buffer is emptied and the sequence starts anew. Where one is free there is no reset,
a packet that has been parsed or is filtered changes nothing, and the next one is parsed and followed
by what is held under the numbers after it. A number whose successor is not a 32-bit number is left
out. -/
theorem reset_exactly_without_slot (B : KeyedBuffer β (List UInt8)) (filter : Nat)
    (parse : Priority → List UInt8 → σ → σ) (reset : σ → σ) (b : β) (s : σ)
    (events : List (Priority × List UInt8)) (hb : B.held b = 0) (feed : Priority)
    (payload : List UInt8) :
    let A := ofBytes B filter parse reset
    let st := A.run events ({ buffer := b }, s)
    let st' := A.dispatch feed payload st
    (B.hasFree st.1.buffer = false →
      st'.1.sequence = {} ∧ B.held st'.1.buffer = 0 ∧ st'.2 = reset st.2 ∧
        st'.1.past = st.1.past ++ [(st.1.arrive payload).epoch]) ∧
    (B.hasFree st.1.buffer = true → st'.1.past = st.1.past ∧
      ∀ frame, Frame.parse payload = some frame →
        (frame.sequenceNumber < filter ∨
            frame.sequenceNumber ≤ st.1.sequence.lastSequenceNumber ∧
              st.1.sequence.lastSequenceNumber < 2 ^ 32 - 1 →
          st'.1.sequence = st.1.sequence ∧ st'.1.buffer = st.1.buffer) ∧
        (filter ≤ frame.sequenceNumber →
          frame.sequenceNumber = st.1.sequence.lastSequenceNumber + 1 →
          ∃ tail, A.Parses feed st st' ((frame.sequenceNumber, payload) :: tail) tail ∧
            tail.map Prod.fst = List.range' (frame.sequenceNumber + 1) tail.length ∧
            ∀ p, (frame.sequenceNumber + tail.length + 1, p) ∉ B.held st'.1.buffer)) := by
  intro A st st'
  have hA : A.Numbered := ofBytes_numbered B filter parse reset
  have hready : A.Ready st.1 := run_ready hA events _ (ready_fresh A b hb [])
  constructor
  · intro hfull
    have hst' : st' = A.onSequenceReset
        ({ st.1.arrive payload with buffer := B.clear st.1.buffer }, st.2) :=
      dispatch_full hfull feed payload
    rw [hst']
    exact ⟨rfl, B.held_clear _, rfl, rfl⟩
  · intro hfree
    refine ⟨?_, ?_⟩
    · have hst' := dispatch_free (A := A) hfree feed payload
      simp only [st']
      rw [hst', drain_past, receive_past]
      rfl
    · intro frame hframe
      have hlt := hA payload frame hframe
      exact ⟨hready.dispatch_old hfree feed hframe, hready.dispatch_next hfree feed hframe hlt⟩

theorem reset_exactly_without_slot_overtaking :
    let packet := fun n : Nat => toLittleEndian 4 n ++ toLittleEndian 8 0
    let A : Arbiter _ _ (List Nat) := ofBytes (KeyedBuffer.slots _ 10) 0
      (fun _ p s => s ++ [ofLittleEndian (p.take 4)]) id
    let st := A.run [(.primary, packet 1), (.primary, packet 3)] ({ buffer := [] }, [])
    ∃ tail, A.Parses .secondary st (A.dispatch .secondary (packet 2) st) ((2, packet 2) :: tail) tail ∧
      tail.map Prod.fst = List.range' 3 tail.length := by
  intro packet A st
  obtain ⟨-, h⟩ := reset_exactly_without_slot (KeyedBuffer.slots _ 10) 0
    (fun _ p s => s ++ [ofLittleEndian (p.take 4)]) id [] ([] : List Nat)
    [(.primary, packet 1), (.primary, packet 3)] rfl .secondary (packet 2)
  obtain ⟨-, h⟩ := h (by decide +kernel)
  obtain ⟨tail, hparses, hnumbers, -⟩ := (h ⟨2, 0⟩ (by decide +kernel)).2 (by decide)
    (by decide +kernel)
  exact ⟨tail, hparses, hnumbers⟩

/-- Packet 2 of a channel that waits for it with all of its ten slots taken: it is not parsed. -/
theorem full_buffer_loses_next_packet :
    let packet := fun n : Nat => toLittleEndian 4 n ++ toLittleEndian 8 0
    let A : Arbiter _ _ (List Nat) := ofBytes (KeyedBuffer.slots _ 10) 0
      (fun _ p s => s ++ [ofLittleEndian (p.take 4)]) id
    let events := ([1, 3, 4, 5, 6, 7, 8, 9, 10, 11, 12].map fun n => (Priority.primary, packet n))
    let st := A.run events ({ buffer := [] }, [])
    let st' := A.dispatch .secondary (packet 2) st
    (st.1.sequence.lastSequenceNumber = 1 ∧ st.2 = [1]) ∧ st'.2 = [1] ∧ st'.1.sequence = {} ∧
      st'.1.buffer = [] := by
  decide +kernel

end Arbiter
end RoqCme.MarketData
