import Mathlib.Algebra.Order.Floor.Ring
import Mathlib.Tactic.FieldSimp
import Mathlib.Tactic.Linarith
import Mathlib.Tactic.LinearCombination
import Mathlib.Tactic.Ring

/-!
Rounding to the nearest integer, half away from zero, in an ordered field. There are
two ways to round a quotient of integers so with truncating division: add half of the
divisor before the division, or look at the remainder behind it.
-/

namespace Rounding

section Field

variable {K : Type*} [Field K] [LinearOrder K] [IsStrictOrderedRing K] [FloorRing K]

/-- The nearest integer, and the one further from zero in the middle of two. -/
def halfAway (x : K) : ℤ := if 0 ≤ x then ⌊x + 1 / 2⌋ else ⌈x - 1 / 2⌉

omit [IsStrictOrderedRing K] in
theorem halfAway_of_nonneg {x : K} (hx : 0 ≤ x) : halfAway x = ⌊x + 1 / 2⌋ := if_pos hx

theorem halfAway_zero : halfAway (0 : K) = 0 := by
  rw [halfAway_of_nonneg (le_refl 0), zero_add, Int.floor_eq_iff]
  norm_num

theorem halfAway_neg (x : K) : halfAway (-x) = -halfAway x := by
  have hceil : -x - 1 / 2 = -(x + 1 / 2) := by ring
  have hfloor : -x + 1 / 2 = -(x - 1 / 2) := by ring
  rcases lt_trichotomy x 0 with hneg | rfl | hpos
  · rw [halfAway_of_nonneg (by linarith), halfAway, if_neg (not_le.mpr hneg), hfloor,
      Int.floor_neg]
  · rw [neg_zero, halfAway_zero, neg_zero]
  · rw [halfAway, if_neg (by linarith), halfAway_of_nonneg (le_of_lt hpos), hceil, Int.ceil_neg]

theorem halfAway_intCast (n : ℤ) : halfAway (n : K) = n := by
  have hnonneg : ∀ n : ℤ, 0 ≤ n → halfAway (n : K) = n := by
    intro n hn
    rw [halfAway_of_nonneg (Int.cast_nonneg hn), Int.floor_intCast_add, Int.floor_eq_zero_iff.mpr]
    · rw [add_zero]
    · constructor <;> norm_num
  rcases Int.le_total 0 n with hn | hn
  · exact hnonneg n hn
  · rw [← neg_neg n, Int.cast_neg, halfAway_neg, hnonneg (-n) (by omega)]

/-- The rounded quotient of integers is a quotient of integers. -/
theorem halfAway_div {a b : ℤ} (ha : 0 ≤ a) (hb : 0 < b) :
    halfAway ((a : K) / b) = (2 * a + b) / (2 * b) := by
  have hb' : (0 : K) < b := Int.cast_pos.mpr hb
  have ha' : (0 : K) ≤ a := Int.cast_nonneg ha
  have hsum : (a : K) / b + 1 / 2 = ((2 * a + b : ℤ) : K) / ((2 * b : ℤ) : K) := by
    push_cast
    field_simp
  rw [halfAway_of_nonneg (div_nonneg ha' (le_of_lt hb')), hsum,
    Int.floor_div_cast_of_nonneg (by omega), Int.floor_intCast]

/-- Half of an even divisor is added away from zero before the division. -/
theorem add_half_tdiv {a half : ℤ} (hhalf : 0 < half) :
    (if 0 ≤ a then a + half else a - half).tdiv (2 * half) =
      halfAway ((a : K) / (2 * half : ℤ)) := by
  have hnonneg : ∀ a : ℤ, 0 ≤ a → (a + half).tdiv (2 * half) =
      halfAway ((a : K) / (2 * half : ℤ)) := by
    intro a ha
    rw [halfAway_div ha (by omega), Int.tdiv_eq_ediv_of_nonneg (by omega), ← Int.mul_add,
      Int.mul_ediv_mul_of_pos _ _ (by decide)]
  split_ifs with ha
  · exact hnonneg a ha
  · have hneg := hnonneg (-a) (by omega)
    rw [Int.cast_neg, neg_div, halfAway_neg] at hneg
    rw [show a - half = -(-a + half) by ring, Int.neg_tdiv, hneg, neg_neg]

/-- A remainder of half the divisor or more takes the quotient away from zero. -/
theorem tdiv_add_sign {a b : ℤ} (hb : 0 < b) :
    (if b ≤ (a.tmod b).natAbs * 2 then a.tdiv b + a.sign else a.tdiv b) =
      halfAway ((a : K) / b) := by
  have hnonneg : ∀ a : ℤ, 0 ≤ a →
      (if b ≤ (a % b) * 2 then a / b + 1 else a / b) = halfAway ((a : K) / b) := by
    intro a ha
    have hrest : 0 ≤ a % b := Int.emod_nonneg a (by omega)
    have hless : a % b < b := Int.emod_lt_of_pos a hb
    have hdivision : b * (a / b) + a % b = a := Int.mul_ediv_add_emod a b
    have hsplit : 2 * a + b = 2 * (a % b) + b + 2 * b * (a / b) := by
      linear_combination (-2) * hdivision
    rw [halfAway_div ha hb, hsplit, Int.add_mul_ediv_left _ _ (by omega)]
    split_ifs with hmore
    · have hone : (2 * (a % b) + b) / (2 * b) = 1 := by
        have hlow : 1 ≤ (2 * (a % b) + b) / (2 * b) :=
          Int.le_ediv_of_mul_le (by omega) (by omega)
        have hhigh : (2 * (a % b) + b) / (2 * b) < 2 :=
          Int.ediv_lt_of_lt_mul (by omega) (by omega)
        omega
      omega
    · have hzero : (2 * (a % b) + b) / (2 * b) = 0 :=
        Int.ediv_eq_zero_of_lt (by omega) (by omega)
      omega
  rcases lt_trichotomy a 0 with hneg | rfl | hpos
  · have hback := hnonneg (-a) (by omega)
    rw [Int.cast_neg, neg_div, halfAway_neg, ← Int.tdiv_eq_ediv_of_nonneg (by omega),
      ← Int.tmod_eq_emod_of_nonneg (by omega), Int.neg_tdiv, Int.neg_tmod] at hback
    rw [Int.sign_eq_neg_one_of_neg hneg]
    have hrest : 0 ≤ (-a).tmod b := Int.tmod_nonneg b (by omega)
    rw [Int.neg_tmod] at hrest
    split_ifs at hback ⊢ <;> omega
  · rw [Int.zero_tmod, Int.zero_tdiv, Int.cast_zero, zero_div, halfAway_zero,
      if_neg (by simpa using hb)]
  · have hrest : 0 ≤ a % b := Int.emod_nonneg a (by omega)
    rw [← hnonneg a (by omega), Int.sign_eq_one_of_pos hpos, Int.tdiv_eq_ediv_of_nonneg (by omega),
      Int.tmod_eq_emod_of_nonneg (by omega), Int.natAbs_of_nonneg hrest]

end Field

end Rounding
