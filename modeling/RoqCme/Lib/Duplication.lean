import RoqCme.Lib.Unwinding

/-! Machines that report what they do, fed with some inputs twice in a row. A second copy is
harmless when it is silent and leaves the state alone. -/
namespace RoqCme.Lib
variable {σ α β : Type*}

/-- The state after an input and what was reported. -/
def Reporter (σ α β : Type*) := σ → α → σ × List β

namespace Reporter
variable (step : Reporter σ α β)

def run : List α → σ → σ × List β
  | [], s => (s, [])
  | a :: as, s => ((run as (step s a).1).1, (step s a).2 ++ (run as (step s a).1).2)

theorem run_append (xs ys : List α) (s : σ) : step.run (xs ++ ys) s =
    ((step.run ys (step.run xs s).1).1, (step.run xs s).2 ++ (step.run ys (step.run xs s).1).2) := by
  induction xs generalizing s with
  | nil => rfl
  | cons x xs ih =>
    simp only [List.cons_append, run, ih, List.append_assoc]

/-- The input twice in immediate succession does what it does once. -/
def Repeatable (s : σ) (a : α) : Prop := step.run [a, a] s = step.run [a] s

theorem repeatable_iff (s : σ) (a : α) :
    step.Repeatable s a ↔ step (step s a).1 a = ((step s a).1, []) := by
  simp only [Repeatable, run, List.append_nil, Prod.ext_iff, List.append_right_eq_self]

/-- Some inputs twice, the others once. -/
def copies (twice : α → Bool) (a : α) : List α := if twice a then [a, a] else [a]

def doubled (twice : α → Bool) (xs : List α) : List α := xs.flatMap (copies twice)

theorem run_copies {twice : α → Bool} {s : σ} {a : α}
    (h : twice a = true → step.Repeatable s a) : step.run (copies twice a) s = step.run [a] s := by
  unfold copies
  split
  · next ht => exact h ht
  · rfl

/-- Doubled inputs change nothing at any time exactly when every one of them is repeatable in
the state that it finds. -/
theorem run_doubled_iff (twice : α → Bool) (xs : List α) (s : σ) :
    (∀ before after, xs = before ++ after →
        step.run (doubled twice before) s = step.run before s) ↔
      Along (fun s a => (step s a).1) (fun s a => twice a = true → step.Repeatable s a) xs s := by
  induction xs generalizing s with
  | nil =>
    refine iff_of_true ?_ trivial
    intro before after h
    rw [(List.append_eq_nil_iff.1 h.symm).1]
    rfl
  | cons x xs ih =>
    have hcopies : ∀ before, doubled twice (x :: before) = copies twice x ++ doubled twice before :=
      fun _ => List.flatMap_cons
    constructor
    · intro h
      have hx : twice x = true → step.Repeatable s x := by
        intro ht
        have hone := h [x] xs rfl
        rwa [doubled, List.flatMap_singleton, copies, if_pos ht] at hone
      refine ⟨hx, (ih (step s x).1).1 ?_⟩
      intro before after he
      have hb := h (x :: before) after (by rw [he]; rfl)
      rw [hcopies, run_append, step.run_copies hx] at hb
      simp only [run, List.append_nil, Prod.mk.injEq, List.append_cancel_left_eq] at hb
      exact Prod.ext hb.1 hb.2
    · intro h before after he
      cases before with
      | nil => rfl
      | cons y before =>
        rw [List.cons_append, List.cons.injEq] at he
        obtain ⟨hy, he⟩ := he
        subst hy
        have hb := (ih (step s x).1).2 h.2 before after he
        rw [hcopies, run_append, step.run_copies h.1]
        simp only [run, List.append_nil, hb]

/-- Inputs that are taken several at a time. -/
def batches : Reporter σ (List α) β := fun s as => step.run as s

theorem run_batches (batch : List (List α)) (s : σ) :
    (batches step).run batch s = step.run batch.flatten s := by
  induction batch generalizing s with
  | nil => rfl
  | cons as batch ih => rw [List.flatten_cons, run_append, run, ih, batches]

theorem repeatable_nil (s : σ) : (batches step).Repeatable s [] := rfl

theorem repeatable_singleton (s : σ) (a : α) :
    (batches step).Repeatable s [a] ↔ step.Repeatable s a := by
  simp only [Repeatable, run_batches, List.flatten_cons, List.flatten_nil, List.cons_append,
    List.nil_append]

end Reporter
end RoqCme.Lib
