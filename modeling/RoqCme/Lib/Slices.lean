import Mathlib.Algebra.Ring.Nat
import Mathlib.Data.List.SplitLengths

/-! A list cut into consecutive slices, one for each item of another list. -/
namespace RoqCme.Lib
variable {α β : Type*} (count : α → Nat)

/-- Each item with its slice of the pool, which has `count` elements. -/
def slices (items : List α) (pool : List β) : List (α × List β) :=
  items.zip ((items.map count).splitLengths pool)

@[simp]
theorem slices_nil (pool : List β) : slices count [] pool = [] := rfl

@[simp]
theorem slices_cons (a : α) (items : List α) (pool : List β) :
    slices count (a :: items) pool =
      (a, pool.take (count a)) :: slices count items (pool.drop (count a)) := by
  simp [slices]

theorem slices_map_fst (items : List α) (pool : List β) :
    (slices count items pool).map Prod.fst = items := by
  rw [slices, List.map_fst_zip]
  simp

/-- Nothing of the pool is left out and nothing is used twice. -/
theorem slices_map_snd (items : List α) (pool : List β)
    (h : (items.map count).sum = pool.length) :
    ((slices count items pool).map Prod.snd).flatten = pool := by
  rw [slices, List.map_snd_zip (by simp), List.flatten_splitLengths _ _ h.ge]

theorem slices_getElem? (items : List α) (pool : List β) (i : Nat) :
    (slices count items pool)[i]? = items[i]?.map fun a =>
      (a, (pool.drop ((items.take i).map count).sum).take (count a)) := by
  induction items generalizing pool i with
  | nil => simp
  | cons a items ih =>
    cases i with
    | zero => simp
    | succ i =>
      rw [slices_cons, List.getElem?_cons_succ, List.getElem?_cons_succ, ih]
      simp [List.drop_drop]

/-- Where the counts of the first part use up its pool, the parts are cut on their own. -/
theorem slices_append (items more : List α) (pool rest : List β)
    (h : (items.map count).sum = pool.length) :
    slices count (items ++ more) (pool ++ rest) =
      slices count items pool ++ slices count more rest := by
  induction items generalizing pool with
  | nil =>
    rw [List.map_nil, List.sum_nil, eq_comm, List.length_eq_zero_iff] at h
    rw [h]
    rfl
  | cons a items ih =>
    rw [List.map_cons, List.sum_cons] at h
    have ha : count a ≤ pool.length := by omega
    rw [List.cons_append, slices_cons, slices_cons, List.cons_append,
      List.take_append_of_le_length ha, List.drop_append_of_le_length ha, ih]
    rw [List.length_drop]
    omega

end RoqCme.Lib
