import Mathlib.Data.List.Induction

/-! Streams in which some items carry the next number, counted from one modulo `M`, and others
announce it without using it up. -/
namespace RoqCme.Lib
variable {α : Type*} (own announced : α → Option Nat) (M : Nat)

/-- How many items carry a number. -/
def issued (xs : List α) : Nat := (xs.filterMap own).length

/-- Every number, carried or announced, is the next one after those issued before it. -/
def Numbered (xs : List α) : Prop :=
  ∀ ys x zs, xs = ys ++ x :: zs → ∀ n, own x = some n ∨ announced x = some n →
    n = (issued own ys + 1) % M

theorem issued_append (xs ys : List α) : issued own (xs ++ ys) = issued own xs + issued own ys := by
  simp [issued]

theorem numbered_nil : Numbered own announced M [] := by
  intro ys x zs h
  simp at h

theorem numbered_concat (xs : List α) (x : α) : Numbered own announced M (xs ++ [x]) ↔
    Numbered own announced M xs ∧
      ∀ n, own x = some n ∨ announced x = some n → n = (issued own xs + 1) % M := by
  constructor
  · intro h
    refine ⟨?_, h xs x [] rfl⟩
    intro ys y zs he
    exact h ys y (zs ++ [x]) (by rw [he]; simp)
  · rintro ⟨h, hx⟩ ys y zs he
    cases zs using List.reverseRecOn with
    | nil =>
      obtain ⟨rfl, hy⟩ := List.append_inj' he rfl
      cases hy
      exact hx
    | append_singleton zs z =>
      rw [← List.cons_append, ← List.append_assoc] at he
      exact h ys y zs (List.append_inj_left' he rfl)

variable {own announced M} {xs : List α}

/-- The numbers carried count up from one. -/
theorem Numbered.own_eq (h : Numbered own announced M xs) :
    xs.filterMap own = (List.range (issued own xs)).map fun i => (i + 1) % M := by
  induction xs using List.reverseRecOn with
  | nil => rfl
  | append_singleton xs x ih =>
    obtain ⟨hxs, hx⟩ := (numbered_concat own announced M xs x).1 h
    rw [List.filterMap_append, issued_append, ih hxs]
    cases hown : own x with
    | none => simp [issued, hown]
    | some n =>
      have hone : issued own [x] = 1 := by simp [issued, hown]
      rw [hone, List.range_succ, List.map_append, List.map_singleton, ← hx n (Or.inl hown)]
      simp [hown]

/-- An announced number is carried by the next item that carries one. -/
theorem Numbered.announced_next (h : Numbered own announced M xs) {ys zs : List α} {x : α} {n : Nat}
    (hxs : xs = ys ++ x :: zs) (hx : announced x = some n) (hown : own x = none) :
    ∀ k ∈ (zs.filterMap own).head?, k = n := by
  intro k hk
  have hn := h ys x zs hxs n (Or.inr hx)
  have hfirst : ∃ us y vs, zs = us ++ y :: vs ∧ issued own us = 0 ∧ own y = some k := by
    clear hxs
    induction zs with
    | nil => cases hk
    | cons z zs ih =>
      cases hz : own z with
      | none =>
        rw [List.filterMap_cons_none hz] at hk
        obtain ⟨us, y, vs, rfl, hus, hy⟩ := ih hk
        exact ⟨z :: us, y, vs, rfl, by simpa [issued, hz] using hus, hy⟩
      | some m =>
        rw [List.filterMap_cons_some hz] at hk
        cases hk
        exact ⟨[], z, zs, rfl, rfl, hz⟩
  obtain ⟨us, y, vs, rfl, hus, hy⟩ := hfirst
  have hk' := h (ys ++ x :: us) y vs (by rw [hxs]; simp) k (Or.inl hy)
  have hbefore : issued own (ys ++ x :: us) = issued own ys := by
    rw [issued_append, ← List.singleton_append, issued_append, hus]
    simp [issued, hown]
  rw [hk', hbefore, hn]

end RoqCme.Lib
