import Mathlib.Data.List.Induction
import Mathlib.Data.List.Nodup
import Mathlib.Logic.Function.Basic

/-! Hash maps that are filled once and iterated in an order that nobody promises. A table keeps the
first value of each key; an index over its entries keeps the last one assigned, whatever the order. -/
namespace RoqCme.Lib
variable {κ ν ι υ : Type*} [DecidableEq κ] [DecidableEq ι]

/-- A map with its entries; no key has two of them. -/
structure Table (κ ν : Type*) where
  entries : List (κ × ν)
  nodup : (entries.map Prod.fst).Nodup

namespace Table

def empty : Table κ ν := ⟨[], List.nodup_nil⟩

def find (t : Table κ ν) (k : κ) : Option ν := t.entries.lookup k

/-- The first value that is emplaced under a key stays. -/
def tryEmplace (t : Table κ ν) (k : κ) (v : ν) : Table κ ν :=
  if h : k ∈ t.entries.map Prod.fst then t
  else
    { entries := t.entries ++ [(k, v)]
      nodup := by
        rw [List.map_append, List.nodup_append]
        refine ⟨t.nodup, List.nodup_singleton k, ?_⟩
        intro a ha b hb hab
        rw [List.map_cons, List.map_nil, List.mem_singleton] at hb
        rw [hab, hb] at ha
        exact h ha }

theorem lookup_eq_some_iff_mem {entries : List (κ × ν)} (h : (entries.map Prod.fst).Nodup) {k : κ}
    {v : ν} : entries.lookup k = some v ↔ (k, v) ∈ entries := by
  induction entries with
  | nil => simp
  | cons e entries ih =>
    obtain ⟨k', v'⟩ := e
    rw [List.map_cons, List.nodup_cons] at h
    by_cases hk : k = k'
    · subst hk
      have hnot : (k, v) ∉ entries := fun hm => h.1 (List.mem_map.2 ⟨_, hm, rfl⟩)
      simp [hnot, eq_comm]
    · have hb : (k == k') = false := beq_false_of_ne hk
      simp [List.lookup_cons, hb, hk, ih h.2]

theorem find_eq_some_iff (t : Table κ ν) {k : κ} {v : ν} :
    t.find k = some v ↔ (k, v) ∈ t.entries :=
  lookup_eq_some_iff_mem t.nodup

theorem find_tryEmplace (t : Table κ ν) (k : κ) (v : ν) (k' : κ) :
    (t.tryEmplace k v).find k' = (t.find k').or (if k' = k then some v else none) := by
  rw [tryEmplace]
  split
  · next h =>
    obtain ⟨e, he, rfl⟩ := List.mem_map.1 h
    have hfind : t.find e.1 = some e.2 := t.find_eq_some_iff.2 he
    by_cases hk : k' = e.1
    · rw [hk, hfind]
      rfl
    · rw [if_neg hk, Option.or_none]
  · by_cases hk : k' = k
    · simp [find, List.lookup_append, hk]
    · simp [find, List.lookup_append, List.lookup_cons, hk, beq_false_of_ne hk]

/-- Of the values emplaced under a key the first one is found. -/
theorem find_foldl_tryEmplace (items : List (κ × ν)) (t : Table κ ν) (k : κ) :
    (items.foldl (fun t e => t.tryEmplace e.1 e.2) t).find k =
      (t.find k).or (items.lookup k) := by
  induction items generalizing t with
  | nil => simp
  | cons e items ih =>
    obtain ⟨k', v⟩ := e
    rw [List.foldl_cons, ih, find_tryEmplace, Option.or_assoc]
    congr 1
    by_cases hk : k = k'
    · simp [hk]
    · simp [List.lookup_cons, hk, beq_false_of_ne hk]

end Table

section LookupAll
variable {α γ : Type} {f : α → Option γ} {xs : List α}

theorem isSome_mapM (h : ∀ x ∈ xs, (f x).isSome) : (xs.mapM f).isSome := by
  induction xs with
  | nil => rfl
  | cons x xs ih =>
    obtain ⟨y, hy⟩ := Option.isSome_iff_exists.1 (h x List.mem_cons_self)
    obtain ⟨ys, hys⟩ := Option.isSome_iff_exists.1
      (ih fun x' hx' => h x' (List.mem_cons_of_mem x hx'))
    rw [List.mapM_cons, hy, hys]
    rfl

end LookupAll

/-- Entry by entry, `key` is assigned `value`. -/
def assignAll {α : Type*} (key : α → ι) (value : α → υ) (entries : List α) : ι → Option υ :=
  entries.foldl (fun m e => Function.update m (key e) (some (value e))) fun _ => none

section AssignAll
variable {α : Type*} {key : α → ι} {value : α → υ} {entries : List α}

theorem assignAll_concat (e : α) : assignAll key value (entries ++ [e]) =
    Function.update (assignAll key value entries) (key e) (some (value e)) := by
  rw [assignAll, List.foldl_append]
  rfl

/-- What is read was assigned by an entry. -/
theorem mem_of_assignAll {i : ι} {u : υ} (h : assignAll key value entries i = some u) :
    ∃ e ∈ entries, key e = i ∧ value e = u := by
  induction entries using List.reverseRecOn with
  | nil => cases h
  | append_singleton entries e ih =>
    rw [assignAll_concat] at h
    by_cases hi : i = key e
    · subst hi
      rw [Function.update_self, Option.some.injEq] at h
      exact ⟨e, by simp, rfl, h⟩
    · rw [Function.update_of_ne hi] at h
      obtain ⟨e', he', hkey, hvalue⟩ := ih h
      exact ⟨e', List.mem_append_left _ he', hkey, hvalue⟩

theorem assignAll_isSome {e : α} (he : e ∈ entries) :
    (assignAll key value entries (key e)).isSome := by
  induction entries using List.reverseRecOn with
  | nil => cases he
  | append_singleton entries e' ih =>
    rw [assignAll_concat]
    by_cases hi : key e = key e'
    · rw [hi, Function.update_self]
      rfl
    · rw [Function.update_of_ne hi]
      cases List.mem_append.1 he with
      | inl he => exact ih he
      | inr he =>
        rw [List.mem_singleton] at he
        exact absurd (congrArg key he) hi

/-- The last assignment is the one that is read. -/
theorem assignAll_last (e : α) : assignAll key value (entries ++ [e]) (key e) = some (value e) := by
  rw [assignAll_concat, Function.update_self]

/-- An entry is read in every order of assignment exactly if those with its key have its value. -/
theorem assignAll_perm_iff (key : α → ι) (value : α → υ) {e : α} (he : e ∈ entries) :
    (∀ order : List α, order.Perm entries → assignAll key value order (key e) = some (value e)) ↔
      ∀ e' ∈ entries, key e' = key e → value e' = value e := by
  constructor
  · intro h e' he' hkey
    obtain ⟨before, after, hsplit⟩ := List.append_of_mem he'
    have hperm : ((before ++ after) ++ [e']).Perm entries := by
      rw [hsplit, List.append_assoc]
      exact (List.perm_append_singleton e' after).append_left before
    have hlast := h _ hperm
    rw [← hkey, assignAll_last, Option.some.injEq] at hlast
    exact hlast
  · intro h order hperm
    have hsome : (assignAll key value order (key e)).isSome :=
      assignAll_isSome (hperm.mem_iff.2 he)
    obtain ⟨u, hu⟩ := Option.isSome_iff_exists.1 hsome
    obtain ⟨e', he', hkey, hvalue⟩ := mem_of_assignAll hu
    rw [hu, ← hvalue, h e' (hperm.mem_iff.1 he') hkey]

end AssignAll
end RoqCme.Lib
