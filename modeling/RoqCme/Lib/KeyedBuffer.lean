import Mathlib.Data.Multiset.AddSub

/-! Stores that keep payloads under numbers in a limited number of slots. The
interface fixes only what a caller may rely on; `slots` shows that it is inhabited. -/
namespace RoqCme.Lib
variable {β P : Type*}

/-- A store of type `β` together with its laws. `held` is the abstraction: the
payloads kept, each with its number, equal ones counted separately. -/
structure KeyedBuffer (β P : Type*) where
  held : β → Multiset (Nat × P)
  hasFree : β → Bool
  keep : β → Nat → P → β
  get : β → Nat → Option (P × β)
  clear : β → β
  held_keep : ∀ b n p, hasFree b = true → held (keep b n p) = (n, p) ::ₘ held b
  get_eq_none : ∀ b n, get b n = none ↔ ∀ p, (n, p) ∉ held b
  get_eq_some : ∀ b n p b', get b n = some (p, b') → held b = (n, p) ::ₘ held b'
  held_clear : ∀ b, held (clear b) = 0

namespace KeyedBuffer

theorem mem_keep (B : KeyedBuffer β P) {b : β} {n : Nat} {p : P} (h : B.hasFree b = true)
    (x : Nat × P) : x ∈ B.held (B.keep b n p) ↔ x = (n, p) ∨ x ∈ B.held b := by
  rw [B.held_keep b n p h, Multiset.mem_cons]

theorem mem_of_get (B : KeyedBuffer β P) {b b' : β} {n : Nat} {p : P}
    (h : B.get b n = some (p, b')) (x : Nat × P) :
    x ∈ B.held b ↔ x = (n, p) ∨ x ∈ B.held b' := by
  rw [B.get_eq_some b n p b' h, Multiset.mem_cons]

/-- A payload handed out gives its slot back: the measure of every drain loop. -/
theorem card_get (B : KeyedBuffer β P) {b b' : β} {n : Nat} {p : P}
    (h : B.get b n = some (p, b')) : (B.held b).card = (B.held b').card + 1 := by
  rw [B.get_eq_some b n p b' h, Multiset.card_cons]

/-- Take the first payload kept under `n` out of a list of slots. -/
def takeSlot (n : Nat) : List (Nat × P) → Option (P × List (Nat × P))
  | [] => none
  | (m, p) :: rest =>
    if m = n then some (p, rest)
    else (takeSlot n rest).map fun (q, rest') => (q, (m, p) :: rest')

theorem takeSlot_eq_none (n : Nat) (xs : List (Nat × P)) :
    takeSlot n xs = none ↔ ∀ p, (n, p) ∉ xs := by
  induction xs with
  | nil => simp [takeSlot]
  | cons x rest ih =>
    obtain ⟨m, q⟩ := x
    by_cases hm : m = n
    · subst hm
      simp only [takeSlot, if_true, reduceCtorEq, false_iff, not_forall, not_not]
      exact ⟨q, by simp⟩
    · simp [takeSlot, hm, ih, Ne.symm hm]

theorem takeSlot_eq_some (n : Nat) (xs : List (Nat × P)) (p : P) (ys : List (Nat × P))
    (h : takeSlot n xs = some (p, ys)) :
    (xs : Multiset (Nat × P)) = (n, p) ::ₘ (ys : Multiset (Nat × P)) := by
  induction xs generalizing ys with
  | nil => simp [takeSlot] at h
  | cons x rest ih =>
    obtain ⟨m, q⟩ := x
    by_cases hm : m = n
    · subst hm
      simp only [takeSlot, if_true, Option.some.injEq, Prod.mk.injEq] at h
      obtain ⟨rfl, rfl⟩ := h
      rfl
    · simp only [takeSlot, hm, if_false, Option.map_eq_some_iff, Prod.mk.injEq] at h
      obtain ⟨⟨q', zs⟩, hz, rfl, rfl⟩ := h
      have hr := ih zs hz
      rw [← Multiset.cons_coe, hr, Multiset.cons_swap, Multiset.cons_coe]

/-- The list of occupied slots of a store with `depth` slots. -/
def slots (P : Type*) (depth : Nat) : KeyedBuffer (List (Nat × P)) P where
  held b := (b : Multiset (Nat × P))
  hasFree b := decide (b.length < depth)
  keep b n p := b ++ [(n, p)]
  get b n := takeSlot n b
  clear _ := []
  held_keep b n p _ := by
    rw [← Multiset.coe_add, Multiset.add_comm]
    rfl
  get_eq_none b n := by simpa using takeSlot_eq_none n b
  get_eq_some b n p b' h := takeSlot_eq_some n b p b' h
  held_clear _ := rfl

end KeyedBuffer
end RoqCme.Lib
