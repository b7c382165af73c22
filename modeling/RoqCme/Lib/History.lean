import Mathlib.Data.List.Basic

/-! Histories: what has to be known before each item of a list, and what has happened since the last
item of a kind. -/
namespace RoqCme.Lib
variable {α : Type*}

/-- Every item comes after a history that allows it. -/
def Each (P : List α → α → Prop) (history : List α) : Prop :=
  ∀ before x after, history = before ++ x :: after → P before x

theorem each_nil (P : List α → α → Prop) : Each P [] := by
  intro before x after h
  simp at h

theorem each_cons {P : List α → α → Prop} {x : α} {history : List α} :
    Each P (x :: history) ↔ P [] x ∧ Each (fun before => P (x :: before)) history := by
  constructor
  · intro h
    refine ⟨h [] x history rfl, ?_⟩
    intro before y after he
    exact h (x :: before) y after (by rw [he]; rfl)
  · rintro ⟨hx, h⟩ before y after he
    cases before with
    | nil =>
      obtain ⟨rfl, -⟩ := List.cons.inj he
      exact hx
    | cons z before =>
      obtain ⟨rfl, hrest⟩ := List.cons.inj he
      exact h before y after hrest

theorem each_append {P : List α → α → Prop} {history recent : List α} (h : Each P history)
    (hrecent : ∀ before x after, recent = before ++ x :: after → P (history ++ before) x) :
    Each P (history ++ recent) := by
  intro before x after he
  rw [List.append_eq_append_iff] at he
  obtain ⟨more, hbefore, hrest⟩ | ⟨more, hbefore, hrest⟩ := he
  · rw [hbefore]
    exact hrecent more x after hrest
  · cases more with
    | nil =>
      rw [List.append_nil] at hbefore
      have hx := hrecent [] x after hrest.symm
      rw [List.append_nil, hbefore] at hx
      exact hx
    | cons y more =>
      rw [List.cons_append, List.cons.injEq] at hrest
      obtain ⟨rfl, -⟩ := hrest
      exact h before x more hbefore

/-- The item has happened, and none of the barrier items after it. -/
def Since (barrier x : α) (history : List α) : Prop :=
  ∃ before after, history = before ++ x :: after ∧ barrier ∉ after

theorem Since.append {barrier x : α} {history recent : List α} (h : Since barrier x history)
    (hrecent : barrier ∉ recent) : Since barrier x (history ++ recent) := by
  obtain ⟨before, after, rfl, hafter⟩ := h
  refine ⟨before, after ++ recent, by simp, ?_⟩
  rw [List.mem_append]
  exact not_or.2 ⟨hafter, hrecent⟩

/-- If the item only happens where it has not happened since the barrier, then it happened once
since. -/
theorem Since.once {barrier x : α} {before after : List α}
    (h : Each (fun past y => y = x → ¬ Since barrier x past) (before ++ x :: after))
    (hafter : barrier ∉ after) : x ∉ after := by
  intro hmem
  obtain ⟨mid, rest, rfl⟩ := List.append_of_mem hmem
  have hmid : barrier ∉ mid := fun hb => hafter (List.mem_append_left _ hb)
  exact h (before ++ x :: mid) x rest (by simp) rfl ⟨before, mid, rfl, hmid⟩

/-- There is one last time that the item happened. -/
theorem rest_unique {x : α} {past past' rest rest' : List α}
    (h : past ++ x :: rest = past' ++ x :: rest') (hrest : x ∉ rest) (hrest' : x ∉ rest') :
    rest = rest' := by
  obtain ⟨more, -, hmore⟩ | ⟨more, -, hmore⟩ := List.append_eq_append_iff.1 h
  · cases more with
    | nil => exact (List.cons.inj hmore).2
    | cons y more =>
      refine absurd ?_ hrest
      rw [(List.cons.inj hmore).2]
      simp
  · cases more with
    | nil => exact (List.cons.inj hmore).2.symm
    | cons y more =>
      refine absurd ?_ hrest'
      rw [(List.cons.inj hmore).2]
      simp

end RoqCme.Lib
