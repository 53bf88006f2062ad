import Tiberius.Machine.Integers
import Tiberius.RustDecimal

/-!
The equality of numbers. Numbers of different scales are compared in the units of
the finer one, and the product that takes the other number there is not checked.
The two builds of the program differ in what they make of an overflow.
-/

namespace Tiberius

open Machine

namespace Numeric

/-- A value in units that have so many more digits behind the point, by a plain power
and a plain product. -/
def scaledUp (build : Build) (digits : ℕ) (value : ℤ) : Option ℤ := do
  let factor ← build.plain 128 (10 ^ digits)
  build.plain 128 (factor * value)

/-- `==`. No result is a panic. -/
def eq (build : Build) (self other : Numeric) : Option Bool :=
  if other.scale < self.scale then
    (scaledUp build (self.scale - other.scale).toNat other.value).map (· == self.value)
  else if self.scale < other.scale then
    (scaledUp build (other.scale - self.scale).toNat self.value).map (· == other.value)
  else some (self.value == other.value)

theorem fits (num : Numeric) : Fits 128 num.value := ⟨num.value_ge, num.value_lt⟩

theorem scale_toNat_le (num : Numeric) : num.scale.toNat ≤ 38 :=
  UInt8.le_iff_toNat_le.mp num.scale_le

/-- Every power of ten between two scales fits. -/
theorem fits_pow_ten {digits : ℕ} (hdigits : digits ≤ 38) : Fits 128 (10 ^ digits) := by
  apply fits_of_natAbs
  rw [Int.natAbs_pow]
  have hle : 10 ^ digits ≤ 10 ^ 38 := Nat.pow_le_pow_right (by decide) hdigits
  exact Nat.lt_of_le_of_lt hle (by decide)

theorem scaledUp_eq (build : Build) {digits : ℕ} (hdigits : digits ≤ 38) (value : ℤ) :
    scaledUp build digits value = build.plain 128 (10 ^ digits * value) := by
  rw [scaledUp, build.plain_of_fits (fits_pow_ten hdigits)]
  rfl

/-- Both numbers can be written in the units of the finer one. The power is one on
the side of the finer number. -/
def Comparable (a b : Numeric) : Prop :=
  Fits 128 (10 ^ (a.scale.toNat - b.scale.toNat) * b.value) ∧
    Fits 128 (10 ^ (b.scale.toNat - a.scale.toNat) * a.value)

theorem Comparable.symm {a b : Numeric} (h : a.Comparable b) : b.Comparable a := ⟨h.2, h.1⟩

/-- The right number is brought to the scale of the left one. -/
theorem eq_of_scale_le (build : Build) {a b : Numeric} (hscale : b.scale ≤ a.scale) :
    eq build a b = (build.plain 128 (10 ^ (a.scale.toNat - b.scale.toNat) * b.value)).map
      (· == a.value) := by
  have hmax := a.scale_toNat_le
  unfold eq
  by_cases hless : b.scale < a.scale
  · rw [if_pos hless, UInt8.toNat_sub_of_le _ _ hscale, scaledUp_eq build (by omega)]
  · have heq : a.scale = b.scale := UInt8.le_antisymm (UInt8.not_lt.mp hless) hscale
    rw [if_neg hless, if_neg (by rw [heq]; exact UInt8.lt_irrefl _), heq, Nat.sub_self, pow_zero,
      one_mul, build.plain_of_fits b.fits]
    exact congrArg some Bool.beq_comm

/-- The left number is brought to the scale of the right one. -/
theorem eq_of_le_scale (build : Build) {a b : Numeric} (hscale : a.scale ≤ b.scale) :
    eq build a b = (build.plain 128 (10 ^ (b.scale.toNat - a.scale.toNat) * a.value)).map
      (· == b.value) := by
  have hmax := b.scale_toNat_le
  unfold eq
  by_cases hless : a.scale < b.scale
  · rw [if_neg (UInt8.not_lt.mpr hscale), if_pos hless, UInt8.toNat_sub_of_le _ _ hscale,
      scaledUp_eq build (by omega)]
  · have heq : b.scale = a.scale := UInt8.le_antisymm (UInt8.not_lt.mp hless) hscale
    rw [if_neg (UInt8.not_lt.mpr hscale), if_neg hless, heq, Nat.sub_self, pow_zero, one_mul,
      build.plain_of_fits a.fits]
    rfl

/-- Which operand is scaled up depends on the scales only, in whatever order. -/
theorem eq_comm (build : Build) (a b : Numeric) : eq build a b = eq build b a := by
  rcases UInt8.le_total a.scale b.scale with hscale | hscale
  · rw [eq_of_le_scale build hscale, eq_of_scale_le build hscale]
  · rw [eq_of_scale_le build hscale, eq_of_le_scale build hscale]

theorem toRat_eq_iff {a b : Numeric} (hscale : b.scale ≤ a.scale) :
    a.toRat = b.toRat ↔ 10 ^ (a.scale.toNat - b.scale.toNat) * b.value = a.value := by
  obtain ⟨more, hmore⟩ := Nat.exists_eq_add_of_le (UInt8.le_iff_toNat_le.mp hscale)
  have hpow : ∀ count, (10 : ℚ) ^ count ≠ 0 := fun count => pow_ne_zero count (by norm_num)
  unfold toRat
  rw [hmore, Nat.add_sub_cancel_left, div_eq_div_iff (hpow _) (hpow _), pow_add]
  rw [show (a.value : ℚ) * 10 ^ b.scale.toNat = 10 ^ b.scale.toNat * a.value by ring]
  rw [show (b.value : ℚ) * (10 ^ b.scale.toNat * 10 ^ more) =
    10 ^ b.scale.toNat * (10 ^ more * b.value) by ring]
  rw [mul_right_inj' (hpow _)]
  norm_cast
  exact ⟨Eq.symm, Eq.symm⟩

/-- Equality with the exact answer in both builds. -/
def ComparedExactly (a b : Numeric) : Prop :=
  ∀ build, eq build a b = some (decide (a.toRat = b.toRat))

/-- The product is the only step that can be inexact. -/
theorem comparedExactly_of_scale_le {a b : Numeric} (hscale : b.scale ≤ a.scale) :
    a.ComparedExactly b ↔ Fits 128 (10 ^ (a.scale.toNat - b.scale.toNat) * b.value) := by
  constructor
  · intro hexact
    by_contra hfits
    have hpanic := hexact .panics
    rw [eq_of_scale_le _ hscale, plain_panics_of_not_fits hfits] at hpanic
    cases hpanic
  · intro hfits build
    rw [eq_of_scale_le build hscale, build.plain_of_fits hfits, Option.map_some,
      beq_eq_decide, decide_eq_decide.mpr (toRat_eq_iff hscale)]

theorem comparable_of_scale_le {a b : Numeric} (hscale : b.scale ≤ a.scale) :
    a.Comparable b ↔ Fits 128 (10 ^ (a.scale.toNat - b.scale.toNat) * b.value) := by
  have hzero : b.scale.toNat - a.scale.toNat = 0 :=
    Nat.sub_eq_zero_of_le (UInt8.le_iff_toNat_le.mp hscale)
  rw [Comparable, hzero, pow_zero, one_mul]
  exact and_iff_left a.fits

theorem ComparedExactly.symm {a b : Numeric} (h : a.ComparedExactly b) : b.ComparedExactly a := by
  intro build
  rw [eq_comm, h build]
  exact congrArg some (decide_eq_decide.mpr ⟨Eq.symm, Eq.symm⟩)

theorem comparedExactly_iff {a b : Numeric} : a.ComparedExactly b ↔ a.Comparable b := by
  rcases UInt8.le_total b.scale a.scale with hscale | hscale
  · rw [comparedExactly_of_scale_le hscale, comparable_of_scale_le hscale]
  · constructor
    · intro hexact
      apply Comparable.symm
      rw [comparable_of_scale_le hscale, ← comparedExactly_of_scale_le hscale]
      exact hexact.symm
    · intro hcomparable
      apply ComparedExactly.symm
      rw [comparedExactly_of_scale_le hscale, ← comparable_of_scale_le hscale]
      exact hcomparable.symm

theorem comparable_self (num : Numeric) : num.Comparable num := by
  rw [comparable_of_scale_le (UInt8.le_refl _), Nat.sub_self, pow_zero, one_mul]
  exact num.fits

theorem eq_some_iff {a b : Numeric} (h : a.Comparable b) (build : Build) :
    eq build a b = some true ↔ a.toRat = b.toRat := by
  rw [comparedExactly_iff.mpr h build, Option.some.injEq, decide_eq_true_iff]

/-- Two numbers are compared as the rational numbers they stand for, without an
overflow, exactly if the coarser one fits when it is scaled up. Equality is reflexive
and symmetric throughout, and transitive between numbers that are so compared. -/
theorem eq_exact (a b c : Numeric) :
    (a.ComparedExactly b ↔ a.Comparable b) ∧
      (∀ build, eq build a a = some true) ∧
      (∀ build, eq build a b = eq build b a) ∧
      ∀ build, a.Comparable b → b.Comparable c → a.Comparable c →
        eq build a b = some true → eq build b c = some true → eq build a c = some true := by
  refine ⟨comparedExactly_iff, fun build => ?_, fun build => eq_comm build a b, ?_⟩
  · exact (eq_some_iff a.comparable_self build).mpr rfl
  · intro build hab hbc hac hfirst hsecond
    rw [eq_some_iff hab] at hfirst
    rw [eq_some_iff hbc] at hsecond
    rw [eq_some_iff hac]
    exact hfirst.trans hsecond

/-- A product with `10 ^ 38` is a multiple of `2 ^ 128`: the one build panics, and in
the other a large number is equal to zero, though not to every zero. -/
theorem eq_overflows : ∃ large fine zero : Numeric,
    large.value = 2 ^ 90 ∧ large.scale = 0 ∧ fine.value = 0 ∧ fine.scale = 38 ∧
      zero.value = 0 ∧ zero.scale = 0 ∧ large.toRat ≠ fine.toRat ∧
      eq .panics large fine = none ∧ eq .wraps large fine = some true ∧
      eq .wraps fine zero = some true ∧ eq .wraps large zero = some false := by
  refine ⟨⟨2 ^ 90, 0, by decide, by decide, by decide⟩, ⟨0, 38, by decide, by decide, by decide⟩,
    ⟨0, 0, by decide, by decide, by decide⟩, rfl, rfl, rfl, rfl, rfl, rfl, ?_, ?_⟩
  · unfold toRat
    norm_num
  · decide

end Numeric

end Tiberius
