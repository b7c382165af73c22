import Mathlib.Data.List.Induction

/-! Streams of updates of which some replace all that came before. A consumer folds the stream;
it ends where it would have ended with plain updates exactly when nothing was there to replace. -/
namespace RoqCme.Lib
variable {α B : Type*}

structure Consumer (α B : Type*) where
  empty : B
  apply : B → α → B

namespace Consumer

/-- A submission is a snapshot (`true`), which starts from nothing, or is applied to what is there. -/
def consume (C : Consumer α B) (b : B) (s : Bool × List α) : B :=
  s.2.foldl C.apply (if s.1 then C.empty else b)

def replay (C : Consumer α B) (subs : List (Bool × List α)) : B :=
  subs.foldl C.consume C.empty

/-- The consumer that keeps the actions in effect. -/
def free (α : Type*) : Consumer α (List α) :=
  { empty := [], apply := fun xs x => xs ++ [x] }

theorem free_foldl (xs ys : List α) : ys.foldl (free α).apply xs = xs ++ ys := by
  induction ys generalizing xs with
  | nil => simp
  | cons y ys ih =>
    rw [List.foldl_cons, ih]
    simp [free]

theorem replay_concat (C : Consumer α B) (subs : List (Bool × List α)) (s : Bool × List α) :
    C.replay (subs ++ [s]) = C.consume (C.replay subs) s := by
  simp [replay]

theorem free_replay_concat (subs : List (Bool × List α)) (s : Bool × List α) :
    (free α).replay (subs ++ [s]) = (if s.1 then [] else (free α).replay subs) ++ s.2 := by
  rw [replay_concat, consume, free_foldl]
  rfl

/-- Every consumer only sees the actions in effect. -/
theorem replay_eq_free (C : Consumer α B) (subs : List (Bool × List α)) :
    C.replay subs = ((free α).replay subs).foldl C.apply C.empty := by
  induction subs using List.reverseRecOn with
  | nil => rfl
  | append_singleton subs s ih =>
    rw [replay_concat, free_replay_concat, List.foldl_append, consume, ih]
    cases s.1 with
    | true => rfl
    | false => rfl

theorem free_replay_suffix (subs : List (Bool × List α)) :
    (free α).replay subs <:+ subs.flatMap Prod.snd := by
  induction subs using List.reverseRecOn with
  | nil => exact List.suffix_refl _
  | append_singleton subs s ih =>
    rw [free_replay_concat, List.flatMap_append, List.flatMap_singleton]
    cases s.1 with
    | true => exact List.suffix_append _ _
    | false =>
      obtain ⟨t, ht⟩ := ih
      exact ⟨t, by rw [← ht]; simp⟩

/-- One more submission keeps everything in effect exactly when all was in effect before and a
snapshot finds nothing to replace. -/
theorem free_replay_keeps_iff (subs : List (Bool × List α)) (s : Bool × List α) :
    (free α).replay (subs ++ [s]) = (subs ++ [s]).flatMap Prod.snd ↔
      (free α).replay subs = subs.flatMap Prod.snd ∧
        (s.1 = true → subs.flatMap Prod.snd = []) := by
  rw [free_replay_concat, List.flatMap_append, List.flatMap_singleton, List.append_left_inj]
  cases s.1 with
  | false => simp
  | true =>
    constructor
    · intro h
      have hnil : subs.flatMap Prod.snd = [] := h.symm
      refine ⟨?_, fun _ => hnil⟩
      have hsuffix := free_replay_suffix subs
      rw [hnil] at hsuffix ⊢
      exact List.suffix_nil.1 hsuffix
    · rintro ⟨-, h⟩
      exact (h rfl).symm

/-- All consumers agree with the plain fold exactly when every action is in effect. -/
theorem replay_all_iff {α : Type} (subs : List (Bool × List α)) :
    (∀ (B : Type) (C : Consumer α B),
        C.replay subs = (subs.flatMap Prod.snd).foldl C.apply C.empty) ↔
      (free α).replay subs = subs.flatMap Prod.snd := by
  constructor
  · intro h
    have hfree := h (List α) (free α)
    rw [free_foldl] at hfree
    exact hfree
  · intro h B C
    rw [replay_eq_free, h]

end Consumer
end RoqCme.Lib
