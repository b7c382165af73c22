import Mathlib.Data.List.SplitBy

/-! Maximal runs of consecutive items with one key, and loops that hand a run on when the key
changes. -/
namespace RoqCme.Lib
variable {α κ σ γ : Type*} (key : α → κ)

/-- The items are of one key. -/
def OneKey (block : List α) : Prop := ∀ a ∈ block, ∀ b ∈ block, key a = key b

theorem oneKey_concat {block : List α} {a : α}
    (ha : ∀ b ∈ block, key b = key a) : OneKey key (block ++ [a]) := by
  intro x hx y hy
  have hall : ∀ z ∈ block ++ [a], key z = key a := by
    intro z hz
    cases List.mem_append.1 hz with
    | inl hz => exact ha z hz
    | inr hz => rw [List.mem_singleton.1 hz]
  rw [hall x hx, hall y hy]

variable [DecidableEq κ]

def runs (items : List α) : List (List α) := items.splitBy fun a b => decide (key a = key b)

theorem OneKey.isChain {block : List α} (h : OneKey key block) :
    block.IsChain fun a b => decide (key a = key b) = true := by
  apply List.Pairwise.isChain
  rw [List.pairwise_iff_forall_sublist]
  intro a b hab
  exact decide_eq_true (h a (hab.subset (by simp)) b (hab.subset (by simp)))

theorem OneKey.runs {block : List α} (h : OneKey key block) (hn : block ≠ []) :
    Lib.runs key block = [block] :=
  List.splitBy_of_isChain hn (h.isChain key)

/-- A run ends where the key changes. -/
theorem OneKey.runs_append {block : List α} (h : OneKey key block) (hn : block ≠ []) {a : α}
    (ha : ∀ b ∈ block, key b ≠ key a) (items : List α) :
    Lib.runs key (block ++ a :: items) = block :: Lib.runs key (a :: items) := by
  have hcut : Lib.runs key (block ++ a :: items) = Lib.runs key block ++ Lib.runs key (a :: items) := by
    refine List.splitBy_append_cons items ?_
    intro b hb
    exact decide_eq_false (ha b (List.mem_of_getLast? hb))
  rw [hcut, h.runs key hn, List.singleton_append]

/-- A loop that keeps what it has read of the current run and emits it with the first item of the
next one has emitted all runs before the last, and has read that one. -/
theorem foldl_runs {step : σ → α → σ} {Reads : σ → List α → Prop} {out : σ → List γ}
    {emit : List α → List γ}
    (hsame : ∀ s block a, Reads s block → block ≠ [] → (∀ b ∈ block, key b = key a) →
      Reads (step s a) (block ++ [a]) ∧ out (step s a) = out s)
    (hnext : ∀ s block a, Reads s block → block ≠ [] → (∀ b ∈ block, key b ≠ key a) →
      Reads (step s a) [a] ∧ out (step s a) = out s ++ emit block)
    (items : List α) {s : σ} {block : List α} (hs : Reads s block) (hn : block ≠ [])
    (hone : OneKey key block) :
    ∃ last, Reads (items.foldl step s) last ∧ last ≠ [] ∧
      out (items.foldl step s) ++ emit last = out s ++ (runs key (block ++ items)).flatMap emit := by
  induction items generalizing s block with
  | nil =>
    refine ⟨block, hs, hn, ?_⟩
    rw [List.append_nil, hone.runs key hn, List.flatMap_singleton]
    rfl
  | cons a items ih =>
    obtain ⟨b, hb⟩ := List.exists_mem_of_ne_nil block hn
    by_cases ha : key b = key a
    · have hall : ∀ c ∈ block, key c = key a := fun c hc => (hone c hc b hb).trans ha
      obtain ⟨hread, hout⟩ := hsame s block a hs hn hall
      obtain ⟨last, hlast, hne, heq⟩ := ih hread (by simp) (oneKey_concat key hall)
      refine ⟨last, hlast, hne, ?_⟩
      rw [List.foldl_cons, heq, hout, List.append_assoc, List.singleton_append]
    · have hall : ∀ c ∈ block, key c ≠ key a := fun c hc he => ha ((hone b hb c hc).trans he)
      obtain ⟨hread, hout⟩ := hnext s block a hs hn hall
      obtain ⟨last, hlast, hne, heq⟩ := ih hread (by simp) (by simp [OneKey])
      refine ⟨last, hlast, hne, ?_⟩
      rw [List.foldl_cons, heq, hout, hone.runs_append key hn hall, List.flatMap_cons,
        List.append_assoc, List.singleton_append]

end RoqCme.Lib
