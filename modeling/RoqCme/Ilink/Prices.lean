import RoqCme.Ilink.Messages
import Mathlib.Algebra.Order.Floor.Ring
import Mathlib.Data.List.Forall2
import Mathlib.Tactic.Linarith
import Mathlib.Tactic.FieldSimp

/-! Prices on the way into an encoded message. `set_price` adds one half and drops the fraction,
which rounds to the nearest mantissa from zero on and towards zero below. -/
namespace RoqCme.Ilink

theorem truncate_of_nonneg {x : ℚ} (h : 0 ≤ x) : truncate x = ⌊x⌋ := by
  rw [truncate, if_neg (not_lt.2 h)]

theorem truncate_of_neg {x : ℚ} (h : x < 0) : truncate x = ⌈x⌉ := by
  rw [truncate, if_pos h, Int.floor_neg, neg_neg]

/-- From zero on the result is nearest. Below, the half that was added is added in the wrong
direction, and the result is only nearest where nothing is dropped. -/
theorem abs_truncate_half_le_iff (y : ℚ) :
    |(truncate (y + 1 / 2) : ℚ) - y| ≤ 1 / 2 ↔ 0 ≤ y + 1 / 2 ∨ ∃ n : Int, y + 1 / 2 = n := by
  rw [abs_le]
  constructor
  · rintro ⟨-, hle⟩
    by_cases h : 0 ≤ y + 1 / 2
    · exact Or.inl h
    · right
      rw [truncate_of_neg (not_le.1 h)] at hle
      have hceil := Int.le_ceil (y + 1 / 2)
      exact ⟨⌈y + 1 / 2⌉, by linarith⟩
  · rintro (h | ⟨n, hn⟩)
    · rw [truncate_of_nonneg h]
      have hle := Int.floor_le (y + 1 / 2)
      have hlt := Int.lt_floor_add_one (y + 1 / 2)
      exact ⟨by linarith, by linarith⟩
    · have hn' : truncate (y + 1 / 2) = n := by
        rw [hn]
        by_cases h : (0 : ℚ) ≤ n
        · rw [truncate_of_nonneg h, Int.floor_intCast]
        · rw [truncate_of_neg (not_le.1 h), Int.ceil_intCast]
      rw [hn']
      exact ⟨by linarith, by linarith⟩

/-- The price that a stored mantissa stands for. -/
def decodePrice (mantissa : Int) : Double :=
  getDouble (if mantissa = mantissaNullValue then none else some mantissa)

/-- What a mantissa stored for a price should be: the null value for NaN and for nothing else, the
nearest mantissa, and the price itself for a price of the exchange. -/
structure Stores (x : Double) (mantissa : Int) : Prop where
  null : x = none ↔ mantissa = mantissaNullValue
  nearest : ∀ value, x = some value → |(mantissa : ℚ) - value * 1000000000| ≤ 1 / 2
  exact : ∀ m : Int, x = some ((m : ℚ) / 1000000000) → mantissa = m ∧ decodePrice mantissa = x

/-- The price arrives in every field of every message that carries one. -/
structure Survives (x : Double) : Prop where
  newOrderSingle : ∀ value : NewOrderSingle,
    (value.price = x → Stores x value.encode.price) ∧
      (value.stopPx = x → Stores x value.encode.stopPx)
  orderCancelReplaceRequest : ∀ value : OrderCancelReplaceRequest,
    (value.price = x → Stores x value.encode.price) ∧
      (value.stopPx = x → Stores x value.encode.stopPx)
  massQuote : ∀ value : MassQuote, List.Forall₂ (fun item encoded =>
    (item.bidPx = x → Stores x encoded.bidPx) ∧ (item.offerPx = x → Stores x encoded.offerPx))
    value.noQuoteEntries value.encode

/-- Between the least and the greatest mantissa that is not null. -/
def InRange (x : Double) : Prop :=
  ∀ value, x = some value → -2 ^ 63 ≤ value * 1000000000 ∧ value * 1000000000 ≤ 2 ^ 63 - 2

/-- Not below minus half a unit, unless half way between two mantissas. -/
def RoundsUp (x : Double) : Prop :=
  ∀ value, x = some value →
    0 ≤ value * 1000000000 + 1 / 2 ∨ ∃ n : Int, value * 1000000000 + 1 / 2 = n

theorem setPrice_ne_null {value : ℚ} (h : InRange (some value)) :
    setPrice (some value) ≠ mantissaNullValue := by
  obtain ⟨-, hle⟩ := h value rfl
  rw [setPrice, mantissaNullValue]
  by_cases hpos : 0 ≤ value * 1000000000 + 1 / 2
  · rw [truncate_of_nonneg hpos]
    have hlt : ⌊value * 1000000000 + 1 / 2⌋ < 2 ^ 63 - 1 := by
      rw [Int.floor_lt]
      push_cast
      linarith
    omega
  · rw [truncate_of_neg (not_le.1 hpos)]
    have hnonpos : ⌈value * 1000000000 + 1 / 2⌉ ≤ 0 := by
      rw [Int.ceil_le]
      push_cast
      linarith
    omega

theorem stores_setPrice_iff {x : Double} (h : InRange x) :
    Stores x (setPrice x) ↔ RoundsUp x := by
  cases x with
  | none =>
    refine iff_of_true ⟨by simp [setPrice], ?_, ?_⟩ ?_
    · intro value hx
      cases hx
    · intro m hx
      cases hx
    · intro value hx
      cases hx
  | some value =>
    constructor
    · intro hs value' hx
      cases hx
      exact (abs_truncate_half_le_iff _).1 (hs.nearest value rfl)
    · intro hr
      have hne := setPrice_ne_null h
      have hnear := (abs_truncate_half_le_iff _).2 (hr value rfl)
      refine ⟨by simp [hne], ?_, ?_⟩
      · intro value' hx
        cases hx
        exact hnear
      · intro m hx
        have hval : value = (m : ℚ) / 1000000000 := Option.some.inj hx
        have hm : value * 1000000000 = m := by
          rw [hval]
          field_simp
        have hset : setPrice (some value) = m := by
          rw [hm, abs_le] at hnear
          have hlt : ((truncate ((m : ℚ) + 1 / 2) - m : Int) : ℚ) < 1 := by
            push_cast
            linarith
          have hgt : (-1 : ℚ) < ((truncate ((m : ℚ) + 1 / 2) - m : Int) : ℚ) := by
            push_cast
            linarith
          have hlt' : truncate ((m : ℚ) + 1 / 2) - m < 1 := by exact_mod_cast hlt
          have hgt' : -1 < truncate ((m : ℚ) + 1 / 2) - m := by exact_mod_cast hgt
          rw [setPrice, hm]
          omega
        refine ⟨hset, ?_⟩
        rw [decodePrice, if_neg hne, hset, getDouble, hval]

/-- A price in range survives encoding, whichever of the three messages carries it, exactly when it
is NaN, not below minus half a unit of the mantissa, or half way between two mantissas. -/
theorem price_survives_encoding_iff (x : Double) (h : InRange x) : Survives x ↔ RoundsUp x := by
  rw [← stores_setPrice_iff h]
  constructor
  · intro hs
    exact (hs.newOrderSingle
      ⟨x, 1, 7, .buy, 1, "", "", 0, 0, 0, none, "", .limit, .day, 0⟩).1 rfl
  · intro hs
    refine ⟨?_, ?_, ?_⟩
    · intro value
      constructor
      · rintro rfl
        exact hs
      · rintro rfl
        exact hs
    · intro value
      constructor
      · rintro rfl
        exact hs
      · rintro rfl
        exact hs
    · intro value
      rw [MassQuote.encode, List.forall₂_map_right_iff, List.forall₂_same]
      intro item _
      constructor
      · rintro rfl
        exact hs
      · rintro rfl
        exact hs

theorem price_survives_encoding_5000 : Survives (some 5000) :=
  (price_survives_encoding_iff (some 5000)
    (by rintro value ⟨rfl⟩; norm_num)).2 (by rintro value ⟨rfl⟩; norm_num)

/-- A spread at -1/4 is quoted with the mantissa -250000000 and sent with -249999999. -/
theorem negative_price_lost :
    setPrice (some (-1 / 4)) = -249999999 ∧ ¬ Survives (some (-1 / 4)) := by
  have hset : setPrice (some (-1 / 4)) = -249999999 := by decide +kernel
  refine ⟨hset, ?_⟩
  intro h
  have hexact := ((h.newOrderSingle
    ⟨some (-1 / 4), 1, 7, .buy, 1, "", "", 0, 0, 0, none, "", .limit, .day, 0⟩).1 rfl).exact
    (-250000000) (by norm_num)
  have hmantissa : setPrice (some (-1 / 4)) = -250000000 := hexact.1
  rw [hset] at hmantissa
  revert hmantissa
  decide

end RoqCme.Ilink
