import Mathlib.Data.List.Basic

/-! Systems that several parties share, and what one of them sees of a run. The rule compares a
run with the run over the party's own events only, step by step. -/
namespace RoqCme.Lib
variable {σ ε : Type*}

/-- Every event of the run meets the condition, in the state that it finds. -/
def Along (step : σ → ε → σ) (C : σ → ε → Prop) : List ε → σ → Prop
  | [], _ => True
  | e :: es, s => C s e ∧ Along step C es (step s e)

instance Along.decidable (step : σ → ε → σ) (C : σ → ε → Prop) [∀ s e, Decidable (C s e)]
    (es : List ε) (s : σ) : Decidable (Along step C es s) :=
  match es with
  | [] => isTrue trivial
  | e :: es =>
    have := Along.decidable step C es (step s e)
    inferInstanceAs (Decidable (C s e ∧ Along step C es (step s e)))

/-- Conditions that do not look at the state. -/
theorem Along.and_of_forall {step : σ → ε → σ} {C : σ → ε → Prop} {D : ε → Prop} {es : List ε}
    {s : σ} (h : Along step C es s) (hD : ∀ e ∈ es, D e) :
    Along step (fun s e => C s e ∧ D e) es s := by
  induction es generalizing s with
  | nil => trivial
  | cons e es ih =>
    have hrest := ih h.2 fun x hx => hD x (List.mem_cons_of_mem e hx)
    exact ⟨⟨h.1, hD e (by simp)⟩, hrest⟩

theorem along_append {step : σ → ε → σ} {C : σ → ε → Prop} (xs ys : List ε) (s : σ) :
    Along step C (xs ++ ys) s ↔ Along step C xs s ∧ Along step C ys (xs.foldl step s) := by
  induction xs generalizing s with
  | nil => simp [Along]
  | cons x xs ih => simp only [List.cons_append, Along, ih, List.foldl_cons, and_assoc]

theorem along_iff {step : σ → ε → σ} {C : σ → ε → Prop} (es : List ε) (s : σ) :
    Along step C es s ↔ ∀ xs e ys, es = xs ++ e :: ys → C (xs.foldl step s) e := by
  constructor
  · intro h xs e ys he
    rw [he, along_append] at h
    exact h.2.1
  · intro h
    induction es generalizing s with
    | nil => trivial
    | cons e es ih =>
      refine ⟨h [] e es rfl, ih (step s e) ?_⟩
      intro xs x ys he
      exact h (e :: xs) x ys (by rw [he, List.cons_append])

/-- One condition implies another wherever the invariant holds. -/
theorem Along.imp {step : σ → ε → σ} {C D : σ → ε → Prop} (I : σ → Prop) {es : List ε} {s : σ}
    (hI : ∀ s, ∀ e ∈ es, I s → I (step s e)) (hCD : ∀ s, ∀ e ∈ es, I s → C s e → D s e)
    (hs : I s) (h : Along step C es s) : Along step D es s := by
  induction es generalizing s with
  | nil => trivial
  | cons e es ih =>
    refine ⟨hCD s e (by simp) hs h.1, ih ?_ ?_ (hI s e (by simp) hs) h.2⟩
    · exact fun t x hx => hI t x (List.mem_cons_of_mem e hx)
    · exact fun t x hx => hCD t x (List.mem_cons_of_mem e hx)

/-- Conditions that agree wherever the invariant holds. -/
theorem along_congr {step : σ → ε → σ} {C D : σ → ε → Prop} (I : σ → Prop)
    (hI : ∀ s e, I s → I (step s e)) (hCD : ∀ s e, I s → (C s e ↔ D s e)) (es : List ε) (s : σ)
    (hs : I s) : Along step C es s ↔ Along step D es s :=
  ⟨Along.imp I (fun s e _ => hI s e) (fun s e _ h => (hCD s e h).1) hs,
    Along.imp I (fun s e _ => hI s e) (fun s e _ h => (hCD s e h).2) hs⟩

/-- What every event that meets the condition preserves holds at the end of the run. -/
theorem Along.run_inv {step : σ → ε → σ} {C : σ → ε → Prop} (I : σ → Prop)
    (hstep : ∀ s e, I s → C s e → I (step s e)) {es : List ε} {s : σ} (h : I s)
    (hC : Along step C es s) : I (es.foldl step s) := by
  induction es generalizing s with
  | nil => exact h
  | cons e es ih => exact ih (hstep s e h hC.1) hC.2

/-- A property that is lost for good with the first event that breaks the condition. -/
theorem Along.of_run {step : σ → ε → σ} {C : σ → ε → Prop} (I P : σ → Prop)
    (hI : ∀ s e, I s → I (step s e)) (hback : ∀ s e, I s → P (step s e) → P s ∧ C s e)
    {es : List ε} {s : σ} (hs : I s) (h : P (es.foldl step s)) : P s ∧ Along step C es s := by
  induction es generalizing s with
  | nil => exact ⟨h, trivial⟩
  | cons e es ih =>
    obtain ⟨hstep, hrest⟩ := ih (hI s e hs) h
    obtain ⟨hP, hC⟩ := hback s e hs hstep
    exact ⟨hP, hC, hrest⟩

/-- A property holds at every point of a run exactly if every event meets the condition that
preserves it, when an event that breaks the condition breaks the property at once. -/
theorem always_iff {step : σ → ε → σ} {C : σ → ε → Prop} (I P : σ → Prop)
    (hI : ∀ s e, I s → I (step s e)) (hP : ∀ s e, I s → P s → C s e → P (step s e))
    (hback : ∀ s e, I s → P (step s e) → C s e) (es : List ε) {s : σ} (hs : I s) (h : P s) :
    (∀ xs ys, es = xs ++ ys → P (xs.foldl step s)) ↔ Along step C es s := by
  induction es generalizing s with
  | nil =>
    refine iff_of_true ?_ trivial
    intro xs ys he
    rw [(List.append_eq_nil_iff.1 he.symm).1]
    exact h
  | cons e es ih =>
    constructor
    · intro hall
      have hstep := hall [e] es rfl
      refine ⟨hback s e hs hstep, (ih (hI s e hs) hstep).1 ?_⟩
      intro xs ys he
      exact hall (e :: xs) ys (by rw [he, List.cons_append])
    · intro hC xs ys he
      cases xs with
      | nil => exact h
      | cons x xs =>
        rw [List.cons_append, List.cons.injEq] at he
        obtain ⟨rfl, he⟩ := he
        exact (ih (hI s e hs) (hP s e hs h hC.1)).2 hC.2 xs ys he

/-- What no event of the run changes. -/
theorem view_foldl {β : Type*} {step : σ → ε → σ} (view : σ → β) {es : List ε}
    (h : ∀ e ∈ es, ∀ s, view (step s e) = view s) (s : σ) :
    view (es.foldl step s) = view s := by
  induction es generalizing s with
  | nil => rfl
  | cons e es ih =>
    have hrest := ih (fun x hx => h x (List.mem_cons_of_mem e hx)) (step s e)
    exact hrest.trans (h e List.mem_cons_self s)

/-- Unwinding: where a party's own events keep the relation in both runs, and the events of the
others keep it in the first one, the two runs stay related. -/
theorem run_purge {step : σ → ε → σ} {C : σ → ε → Prop} (R : σ → σ → Prop) (mine : ε → Bool)
    (hmine : ∀ s t e, R s t → C s e → mine e = true → R (step s e) (step t e))
    (hother : ∀ s t e, R s t → C s e → mine e = false → R (step s e) t)
    (es : List ε) (s t : σ) (h : R s t) (hC : Along step C es s) :
    R (es.foldl step s) ((es.filter mine).foldl step t) := by
  induction es generalizing s t with
  | nil => exact h
  | cons e es ih =>
    obtain ⟨he, hes⟩ := hC
    cases hm : mine e with
    | true =>
      rw [List.filter_cons_of_pos hm, List.foldl_cons, List.foldl_cons]
      exact ih _ _ (hmine s t e h he hm) hes
    | false =>
      rw [List.filter_cons_of_neg (by simp [hm]), List.foldl_cons]
      exact ih _ _ (hother s t e h he hm) hes

end RoqCme.Lib
