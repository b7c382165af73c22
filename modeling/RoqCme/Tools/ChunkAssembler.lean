import Mathlib.Data.List.Induction
import RoqCme.Tools.Security

/-! The chunk assembler of an MBO snapshot: what one call of `update_mbo_snapshot` can do, and
which chunks the orders collected so far are made of. -/
namespace RoqCme.Tools

/-- What a call does, whatever the callback is. -/
inductive ChunkStep {Qp Qo ε : Type} (s : Security Qp Qo) (currentChunk noChunks : Nat)
    (callback : Bool → Security Qp Qo → Security Qp Qo × List ε) :
    Bool × Security Qp Qo × List ε → Prop where
  | same (h0 : s.mbo.noChunks ≠ 0) (h : currentChunk = s.mbo.lastChunk) :
    ChunkStep s currentChunk noChunks callback (false, s, [])
  | last (h0 : s.mbo.noChunks ≠ 0) (h : currentChunk ≠ s.mbo.lastChunk)
    (hn : currentChunk = u32 (s.mbo.lastChunk + 1)) (hl : currentChunk = noChunks) :
    ChunkStep s currentChunk noChunks callback
      (true, (callback true s).1.resetChunks, (callback true s).2)
  | next (h0 : s.mbo.noChunks ≠ 0) (h : currentChunk ≠ s.mbo.lastChunk)
    (hn : currentChunk = u32 (s.mbo.lastChunk + 1)) (hl : currentChunk ≠ noChunks) :
    ChunkStep s currentChunk noChunks callback
      (false, callback false { s with mbo := { s.mbo with lastChunk := currentChunk } })
  | restart (h0 : s.mbo.noChunks ≠ 0) (h : currentChunk ≠ s.mbo.lastChunk)
    (hn : currentChunk ≠ u32 (s.mbo.lastChunk + 1)) :
    ChunkStep s currentChunk noChunks callback (false, s.resetChunks, [])
  | start (h0 : s.mbo.noChunks = 0) (h : currentChunk = 1) :
    ChunkStep s currentChunk noChunks callback
      (false, callback (decide (1 = noChunks))
        { s with mbo := { s.mbo with noChunks := noChunks, lastChunk := 1 } })
  | ignored (h0 : s.mbo.noChunks = 0) (h : currentChunk ≠ 1) :
    ChunkStep s currentChunk noChunks callback (false, s, [])

namespace Security
variable {Qp Qo ε : Type}

section Equations
variable {s : Security Qp Qo} {currentChunk noChunks : Nat}
  {callback : Bool → Security Qp Qo → Security Qp Qo × List ε}

theorem update_same (h0 : s.mbo.noChunks ≠ 0) (h : currentChunk = s.mbo.lastChunk) :
    s.updateMboSnapshot currentChunk noChunks callback = (false, s, []) := by
  rw [updateMboSnapshot, if_pos h0, if_pos h]

theorem update_last (h0 : s.mbo.noChunks ≠ 0) (h : currentChunk ≠ s.mbo.lastChunk)
    (hn : currentChunk = u32 (s.mbo.lastChunk + 1)) (hl : currentChunk = noChunks) :
    s.updateMboSnapshot currentChunk noChunks callback =
      (true, (callback true s).1.resetChunks, (callback true s).2) := by
  rw [updateMboSnapshot, if_pos h0, if_neg h, if_pos hn, if_pos hl]

theorem update_next (h0 : s.mbo.noChunks ≠ 0) (h : currentChunk ≠ s.mbo.lastChunk)
    (hn : currentChunk = u32 (s.mbo.lastChunk + 1)) (hl : currentChunk ≠ noChunks) :
    s.updateMboSnapshot currentChunk noChunks callback =
      (false, callback false { s with mbo := { s.mbo with lastChunk := currentChunk } }) := by
  rw [updateMboSnapshot, if_pos h0, if_neg h, if_pos hn, if_neg hl]

theorem update_restart (h0 : s.mbo.noChunks ≠ 0) (h : currentChunk ≠ s.mbo.lastChunk)
    (hn : currentChunk ≠ u32 (s.mbo.lastChunk + 1)) :
    s.updateMboSnapshot currentChunk noChunks callback = (false, s.resetChunks, []) := by
  rw [updateMboSnapshot, if_pos h0, if_neg h, if_neg hn]

theorem update_start (h0 : s.mbo.noChunks = 0) (h : currentChunk = 1) :
    s.updateMboSnapshot currentChunk noChunks callback =
      (false, callback (decide (1 = noChunks))
        { s with mbo := { s.mbo with noChunks := noChunks, lastChunk := 1 } }) := by
  subst h
  rw [updateMboSnapshot, if_neg (not_not.2 h0), if_pos rfl]

theorem update_ignored (h0 : s.mbo.noChunks = 0) (h : currentChunk ≠ 1) :
    s.updateMboSnapshot currentChunk noChunks callback = (false, s, []) := by
  rw [updateMboSnapshot, if_neg (not_not.2 h0), if_neg h]

end Equations

theorem updateMboSnapshot_step (s : Security Qp Qo) (currentChunk noChunks : Nat)
    (callback : Bool → Security Qp Qo → Security Qp Qo × List ε) :
    ChunkStep s currentChunk noChunks callback
      (s.updateMboSnapshot currentChunk noChunks callback) := by
  by_cases h0 : s.mbo.noChunks = 0
  · by_cases h : currentChunk = 1
    · rw [update_start h0 h]
      exact .start h0 h
    · rw [update_ignored h0 h]
      exact .ignored h0 h
  · by_cases h : currentChunk = s.mbo.lastChunk
    · rw [update_same h0 h]
      exact .same h0 h
    · by_cases hn : currentChunk = u32 (s.mbo.lastChunk + 1)
      · by_cases hl : currentChunk = noChunks
        · rw [update_last h0 h hn hl]
          exact .last h0 h hn hl
        · rw [update_next h0 h hn hl]
          exact .next h0 h hn hl
      · rw [update_restart h0 h hn]
        exact .restart h0 h hn

end Security

/-- A chunk as the feed sends it, with the orders of its entries. -/
structure Chunk where
  currentChunk : Nat
  noChunks : Nat
  entries : List MBOUpdate
  first : 1 ≤ currentChunk
  last : currentChunk ≤ noChunks
  width : noChunks < 2 ^ 32

namespace Chunk
variable {Qp Qo : Type}

/-- A callback that appends the entries and reports that it ran. -/
def append (c : Chunk) (_last : Bool) (s : Security Qp Qo) : Security Qp Qo × List Chunk :=
  ({ s with mbo := { s.mbo with orders := s.mbo.orders ++ c.entries } }, [c])

def update (c : Chunk) (s : Security Qp Qo) : Bool × Security Qp Qo × List Chunk :=
  s.updateMboSnapshot c.currentChunk c.noChunks c.append

end Chunk

/-- The assembler of a security and, as history only, the chunks for which the callback ran
since the assembler was last empty. -/
structure Assembly (Qp Qo : Type) where
  security : Security Qp Qo
  accepted : List Chunk

namespace Assembly
variable {Qp Qo : Type}

def step (a : Assembly Qp Qo) (c : Chunk) : Assembly Qp Qo :=
  let r := c.update a.security
  { security := r.2.1
    accepted := if r.2.1.mbo.noChunks = 0 then [] else a.accepted ++ r.2.2 }

/-- The assembler after a sequence of calls, from its state after construction. -/
def run (s : Security Qp Qo) (chunks : List Chunk) : Assembly Qp Qo :=
  chunks.foldl step ⟨s.resetChunks, []⟩

/-- The orders are those of the accepted chunks, which are numbered from one. -/
structure Represented (a : Assembly Qp Qo) : Prop where
  empty : a.security.mbo.noChunks = 0 → a.security.mbo.lastChunk = 0
  numbers : a.accepted.map Chunk.currentChunk = List.range' 1 a.security.mbo.lastChunk
  orders : a.security.mbo.orders = a.accepted.flatMap Chunk.entries
  width : a.security.mbo.lastChunk + 1 < 2 ^ 32

theorem Represented.fresh (s : Security Qp Qo) : Represented ⟨s.resetChunks, []⟩ where
  empty _ := rfl
  numbers := rfl
  orders := rfl
  width := by
    show 0 + 1 < 2 ^ 32
    decide

theorem Represented.accepted_nil {a : Assembly Qp Qo} (h : a.Represented)
    (h0 : a.security.mbo.noChunks = 0) : a.accepted = [] := by
  have hn := h.numbers
  rw [h.empty h0] at hn
  exact List.map_eq_nil_iff.1 hn

/-- `last_chunk` is the number of the last accepted chunk, also in an empty assembler. -/
theorem Represented.lastChunk {a : Assembly Qp Qo} (h : a.Represented) :
    (a.accepted.map Chunk.currentChunk).getLastD 0 = a.security.mbo.lastChunk := by
  rw [h.numbers]
  cases a.security.mbo.lastChunk with
  | zero => rfl
  | succ n => rw [List.range'_1_concat, List.getLastD_concat, Nat.add_comm]

/-- A chunk taken for the next one has the next number. -/
theorem Represented.next {a : Assembly Qp Qo} (h : a.Represented) {c : Chunk}
    (hn : c.currentChunk = u32 (a.security.mbo.lastChunk + 1)) :
    c.currentChunk = a.security.mbo.lastChunk + 1 := by
  rw [hn, u32, Nat.mod_eq_of_lt h.width]

/-- The first or the next chunk is accepted. -/
theorem Represented.accept {a : Assembly Qp Qo} (h : a.Represented) {c : Chunk}
    {s : Security Qp Qo} (hc : c.currentChunk = a.security.mbo.lastChunk + 1)
    (h0 : s.mbo.noChunks ≠ 0) (hl : s.mbo.lastChunk = c.currentChunk)
    (ho : s.mbo.orders = a.security.mbo.orders ++ c.entries) (hw : c.currentChunk + 1 < 2 ^ 32) :
    Represented ⟨s, a.accepted ++ [c]⟩ where
  empty h0' := absurd h0' h0
  numbers := by
    show (a.accepted ++ [c]).map Chunk.currentChunk = List.range' 1 s.mbo.lastChunk
    rw [List.map_append, h.numbers, hl, hc, List.range'_1_concat, Nat.add_comm 1]
    simp [hc]
  orders := by
    show s.mbo.orders = (a.accepted ++ [c]).flatMap Chunk.entries
    rw [ho, h.orders]
    simp
  width := by
    show s.mbo.lastChunk + 1 < 2 ^ 32
    rw [hl]
    exact hw

theorem step_of_ne {a : Assembly Qp Qo} {c : Chunk}
    (h0 : (c.update a.security).2.1.mbo.noChunks ≠ 0) :
    a.step c = ⟨(c.update a.security).2.1, a.accepted ++ (c.update a.security).2.2⟩ := by
  simp only [step, if_neg h0]

theorem step_of_eq {a : Assembly Qp Qo} {c : Chunk}
    (h0 : (c.update a.security).2.1.mbo.noChunks = 0) :
    a.step c = ⟨(c.update a.security).2.1, []⟩ := by
  simp only [step, if_pos h0]

/-- The callback runs for the chunk at hand or not at all. -/
theorem update_calls (c : Chunk) (s : Security Qp Qo) : (c.update s).2.2.Sublist [c] := by
  have hs := s.updateMboSnapshot_step c.currentChunk c.noChunks c.append
  unfold Chunk.update
  generalize s.updateMboSnapshot c.currentChunk c.noChunks c.append = r at hs
  cases hs with
  | same _ _ => exact List.nil_sublist _
  | last _ _ _ _ => exact .refl _
  | next _ _ _ _ => exact .refl _
  | restart _ _ _ => exact List.nil_sublist _
  | start _ _ => exact .refl _
  | ignored _ _ => exact List.nil_sublist _

/-- It runs only for the successor of the last accepted chunk. -/
theorem Represented.called {a : Assembly Qp Qo} (h : a.Represented) (c d : Chunk)
    (hd : d ∈ (c.update a.security).2.2) :
    d = c ∧ c.currentChunk = a.security.mbo.lastChunk + 1 := by
  refine ⟨List.mem_singleton.1 ((update_calls c a.security).subset hd), ?_⟩
  have hs := a.security.updateMboSnapshot_step c.currentChunk c.noChunks c.append
  unfold Chunk.update at hd
  generalize a.security.updateMboSnapshot c.currentChunk c.noChunks c.append = r at hs hd
  cases hs with
  | same _ _ => cases hd
  | last _ _ hn _ => exact h.next hn
  | next _ _ hn _ => exact h.next hn
  | restart _ _ _ => cases hd
  | start h0 hc => rw [hc, h.empty h0]
  | ignored _ _ => cases hd

theorem Represented.step {a : Assembly Qp Qo} (h : a.Represented) (c : Chunk) :
    (a.step c).Represented := by
  have hs := a.security.updateMboSnapshot_step c.currentChunk c.noChunks c.append
  have hfirst := c.first
  have hlast := c.last
  have hwidth := c.width
  unfold Assembly.step Chunk.update
  generalize a.security.updateMboSnapshot c.currentChunk c.noChunks c.append = r at hs
  cases hs with
  | same h0 _ =>
    simp only [if_neg h0, List.append_nil]
    exact h
  | last _ _ _ _ => exact .fresh _
  | next h0 _ hn hl =>
    change Represented ⟨_, if a.security.mbo.noChunks = 0 then [] else a.accepted ++ [c]⟩
    rw [if_neg h0]
    exact h.accept (h.next hn) h0 rfl rfl (by omega)
  | restart _ _ _ => exact .fresh _
  | start h0 hc =>
    have hno : c.noChunks ≠ 0 := by omega
    have hw : c.currentChunk + 1 < 2 ^ 32 := by
      rw [hc]
      decide
    change Represented ⟨_, if c.noChunks = 0 then [] else a.accepted ++ [c]⟩
    rw [if_neg hno]
    exact h.accept (by rw [h.empty h0, hc]) hno hc.symm rfl hw
  | ignored h0 _ =>
    simp only [if_pos h0, ← h.accepted_nil h0]
    exact h

theorem run_append (s : Security Qp Qo) (chunks : List Chunk) (c : Chunk) :
    run s (chunks ++ [c]) = (run s chunks).step c := by
  rw [run, List.foldl_append]
  rfl

theorem run_represented (s : Security Qp Qo) (chunks : List Chunk) :
    (run s chunks).Represented := by
  induction chunks using List.reverseRec with
  | nil => exact .fresh s
  | append_singleton chunks c ih =>
    rw [run_append]
    exact ih.step c

/-- The accepted chunks are among those received since the assembler was last empty. -/
def SinceEmpty (s : Security Qp Qo) (chunks : List Chunk) : Prop :=
  ∃ before after, chunks = before ++ after ∧
    (run s before).security.mbo.noChunks = 0 ∧
    (∀ received, received <+: after → received ≠ [] →
      (run s (before ++ received)).security.mbo.noChunks ≠ 0) ∧
    (run s chunks).accepted.Sublist after

theorem run_sinceEmpty (s : Security Qp Qo) (chunks : List Chunk) : SinceEmpty s chunks := by
  induction chunks using List.reverseRec with
  | nil => exact ⟨[], [], rfl, rfl, fun r hr hne => absurd (List.prefix_nil.1 hr) hne, .refl _⟩
  | append_singleton chunks c ih =>
    obtain ⟨before, after, he, hb, hne, hsub⟩ := ih
    by_cases h0 : (c.update (run s chunks).security).2.1.mbo.noChunks = 0
    · have hstep := run_append s chunks c
      rw [step_of_eq h0] at hstep
      refine ⟨chunks ++ [c], [], by simp, ?_,
        fun r hr hr0 => absurd (List.prefix_nil.1 hr) hr0, ?_⟩
      · rw [hstep]
        exact h0
      · have hnil : (run s (chunks ++ [c])).accepted = [] := congrArg Assembly.accepted hstep
        exact List.sublist_nil.2 hnil
    · have hstep := run_append s chunks c
      rw [step_of_ne h0] at hstep
      refine ⟨before, after ++ [c], by rw [he, List.append_assoc], hb, ?_, ?_⟩
      · intro received hr hr0
        cases List.prefix_concat_iff.1 hr with
        | inl hr =>
          rw [hr, ← List.append_assoc, ← he, hstep]
          exact h0
        | inr hr => exact hne received hr hr0
      · rw [hstep]
        exact hsub.append (update_calls c _)

end Assembly

/-- In every reachable state the orders are those of chunks `1, ..., last_chunk`, each accepted
once since the assembler was last empty, and the callback only ever runs for the next chunk. -/
theorem chunk_assembler_invariant {Qp Qo : Type} (s : Security Qp Qo) (chunks : List Chunk) :
    let a := Assembly.run s chunks
    (a.security.mbo.noChunks = 0 →
      a.security.mbo.lastChunk = 0 ∧ a.security.mbo.orders = []) ∧
    (a.security.mbo.noChunks ≠ 0 →
      Assembly.SinceEmpty s chunks ∧
        a.accepted.map Chunk.currentChunk = List.range' 1 a.security.mbo.lastChunk ∧
        a.security.mbo.orders = a.accepted.flatMap Chunk.entries) ∧
    ∀ c : Chunk, ∀ d ∈ (c.update a.security).2.2,
      d = c ∧ d.currentChunk = (a.accepted.map Chunk.currentChunk).getLastD 0 + 1 := by
  intro a
  have h : a.Represented := Assembly.run_represented s chunks
  refine ⟨fun h0 => ⟨h.empty h0, ?_⟩, fun _ => ⟨Assembly.run_sinceEmpty s chunks, h.numbers,
    h.orders⟩, ?_⟩
  · rw [h.orders, h.accepted_nil h0]
    rfl
  · intro c d hd
    obtain ⟨rfl, hc⟩ := h.called c d hd
    exact ⟨rfl, by rw [h.lastChunk, hc]⟩

end RoqCme.Tools
