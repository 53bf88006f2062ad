import Mathlib.Data.Rat.Floor
import Tiberius.NumericEquality
import Tiberius.NumericPrecision
import Tiberius.Rounding.HalfAway

/-!
Numbers at the scale of their column in a bulk load, step by step on 128 bits. What
can overflow is asked for first; the divisions cannot. Two places round a number away
from zero, each in its own way, and a column of scale four compares them.
-/

namespace Tiberius

open Writing Writer Machine Rounding

def orPanic {α : Type} : Option α → Except Fault α
  | some value => .ok value
  | none => .error .panic

namespace Numeric

def orOverflow {α : Type} : Option α → Except Fault α
  | some value => .ok value
  | none => rescaleOverflow

/-- The rescaling in `ColumnData::encode`. -/
def rescaleSteps (num : Numeric) (targetScale : UInt8) : Except Fault Numeric :=
  if targetScale = num.scale then .ok num
  else if num.scale < targetScale then do
    let factor ← orOverflow (checked 128 (10 ^ (targetScale - num.scale).toNat))
    let value ← orOverflow (checked 128 (num.value * factor))
    newWithScale value targetScale
  else do
    let factor ← orOverflow (checked 128 (10 ^ (num.scale - targetScale).toNat))
    let half ← orPanic (quotient 128 factor 2)
    let rounded ← orOverflow
      (if 0 ≤ num.value then checked 128 (num.value + half) else checked 128 (num.value - half))
    let value ← orPanic (quotient 128 rounded factor)
    newWithScale value targetScale

/-- The value in the units of a scale, half away from zero. -/
def halfAwayAt (num : Numeric) (scale : UInt8) : ℤ :=
  halfAway ((num.value : ℚ) * 10 ^ scale.toNat / 10 ^ num.scale.toNat)

/-- What the rescaling computes on the way to its result: the product with the power
of ten between the scales, or the sum with half of that power. -/
def intermediate (num : Numeric) (scale : UInt8) : ℤ :=
  if num.scale ≤ scale then num.value * 10 ^ (scale.toNat - num.scale.toNat)
  else awayFromZero num.value ((10 ^ (num.scale.toNat - scale.toNat) : ℤ).tdiv 2)

theorem halfAwayAt_finer {num : Numeric} {scale : UInt8} {more : ℕ}
    (hscale : scale.toNat = num.scale.toNat + more) :
    num.halfAwayAt scale = num.value * 10 ^ more := by
  have hpow : (10 : ℚ) ^ num.scale.toNat ≠ 0 := pow_ne_zero _ (by norm_num)
  have hvalue : (num.value : ℚ) * 10 ^ scale.toNat / 10 ^ num.scale.toNat =
      ((num.value * 10 ^ more : ℤ) : ℚ) := by
    rw [hscale, pow_add]
    push_cast
    field_simp
  rw [halfAwayAt, hvalue, halfAway_intCast]

theorem halfAwayAt_coarser {num : Numeric} {scale : UInt8} {less : ℕ}
    (hscale : num.scale.toNat = scale.toNat + less) :
    num.halfAwayAt scale = halfAway ((num.value : ℚ) / ((10 ^ less : ℤ) : ℚ)) := by
  have hpow : (10 : ℚ) ^ scale.toNat ≠ 0 := pow_ne_zero _ (by norm_num)
  have hless : (10 : ℚ) ^ less ≠ 0 := pow_ne_zero _ (by norm_num)
  have hvalue : (num.value : ℚ) * 10 ^ scale.toNat / 10 ^ num.scale.toNat =
      (num.value : ℚ) / ((10 ^ less : ℤ) : ℚ) := by
    rw [hscale, pow_add]
    push_cast
    field_simp
  rw [halfAwayAt, hvalue]

theorem halfAwayAt_eq_tdiv {num : Numeric} {scale : UInt8} {less : ℕ}
    (hscale : num.scale.toNat = scale.toNat + (less + 1)) :
    num.halfAwayAt scale = (awayFromZero num.value (5 * 10 ^ less)).tdiv (10 ^ (less + 1)) := by
  have hfactor : (10 : ℤ) ^ (less + 1) = 2 * (5 * 10 ^ less) := by ring
  have hhalf : (0 : ℤ) < 5 * 10 ^ less := by positivity
  rw [halfAwayAt_coarser hscale, hfactor]
  exact (add_half_tdiv hhalf).symm

/-- The result of a rescaling fits if what it is computed from does. -/
theorem fits_halfAwayAt {num : Numeric} {scale : UInt8}
    (hfits : Fits 128 (num.intermediate scale)) : Fits 128 (num.halfAwayAt scale) := by
  unfold intermediate at hfits
  split_ifs at hfits with hle
  · obtain ⟨more, hmore⟩ := Nat.exists_eq_add_of_le (UInt8.le_iff_toNat_le.mp hle)
    rw [hmore, Nat.add_sub_cancel_left] at hfits
    rw [halfAwayAt_finer hmore]
    exact hfits
  · rw [UInt8.not_le, UInt8.lt_iff_toNat_lt] at hle
    obtain ⟨less, hless⟩ := Nat.exists_eq_add_of_lt hle
    rw [hless, show scale.toNat + less + 1 - scale.toNat = less + 1 by omega,
      tdiv_two_pow] at hfits
    rw [halfAwayAt_eq_tdiv hless]
    exact hfits.tdiv (by positivity)

/-- A step that asks for the overflow goes on only with the exact result. -/
theorem orOverflow_bind {α : Type} (n : ℤ) (f : ℤ → Except Fault α) :
    (orOverflow (checked 128 n) >>= f) = if Fits 128 n then f n else rescaleOverflow := by
  unfold checked
  split_ifs <;> rfl

theorem rescaleSteps_finer {num : Numeric} {scale : UInt8} (hless : num.scale < scale)
    (hscale : scale ≤ 38) {more : ℕ} (hmore : scale.toNat = num.scale.toNat + more) :
    num.rescaleSteps scale =
      if Fits 128 (num.value * 10 ^ more) then newWithScale (num.value * 10 ^ more) scale
      else rescaleOverflow := by
  have hmax : scale.toNat ≤ 38 := UInt8.le_iff_toNat_le.mp hscale
  rw [rescaleSteps, if_neg (UInt8.ne_of_lt hless).symm, if_pos hless,
    UInt8.toNat_sub_of_le _ _ (UInt8.le_of_lt hless), hmore, Nat.add_sub_cancel_left,
    orOverflow_bind, if_pos (fits_pow_ten (by omega)), orOverflow_bind]

theorem rescaleSteps_coarser {num : Numeric} {scale : UInt8} (hless : scale < num.scale)
    {less : ℕ} (hmore : num.scale.toNat = scale.toNat + (less + 1)) :
    num.rescaleSteps scale =
      if Fits 128 (awayFromZero num.value (5 * 10 ^ less)) then
        newWithScale ((awayFromZero num.value (5 * 10 ^ less)).tdiv (10 ^ (less + 1))) scale
      else rescaleOverflow := by
  have hmax := num.scale_toNat_le
  have hpow : Fits 128 (10 ^ (less + 1)) := fits_pow_ten (by omega)
  rw [rescaleSteps, if_neg (UInt8.ne_of_lt hless),
    if_neg (UInt8.not_lt.mpr (UInt8.le_of_lt hless)),
    UInt8.toNat_sub_of_le _ _ (UInt8.le_of_lt hless), hmore, Nat.add_sub_cancel_left,
    orOverflow_bind, if_pos hpow, quotient_of_pos hpow (by decide), tdiv_two_pow]
  have hrounded : (if 0 ≤ num.value then checked 128 (num.value + 5 * 10 ^ less)
      else checked 128 (num.value - 5 * 10 ^ less)) =
      checked 128 (awayFromZero num.value (5 * 10 ^ less)) := by
    unfold awayFromZero
    split_ifs <;> rfl
  change (orOverflow (if 0 ≤ num.value then _ else _) >>= _) = _
  rw [hrounded, orOverflow_bind]
  split_ifs with hfits
  · rw [quotient_of_pos hfits (by positivity)]
    rfl
  · rfl

/-- The only way to fail is an intermediate value that does not fit. -/
theorem rescaleSteps_eq (num : Numeric) {scale : UInt8} (hscale : scale ≤ 38) :
    num.rescaleSteps scale =
      if Fits 128 (num.intermediate scale) then newWithScale (num.halfAwayAt scale) scale
      else rescaleOverflow := by
  unfold intermediate
  rcases scale_cases num.scale scale with rfl | ⟨hless, more, hmore⟩ | ⟨hless, less, hmore⟩
  · have hfits : Fits 128 (num.value * 10 ^ (num.scale.toNat - num.scale.toNat)) := by
      rw [Nat.sub_self, pow_zero, mul_one]
      exact num.fits
    have hkept : num.halfAwayAt num.scale = num.value := by
      rw [halfAwayAt_finer (Nat.add_zero _).symm, pow_zero, mul_one]
    rw [rescaleSteps, if_pos rfl, if_pos (UInt8.le_refl _), if_pos hfits, hkept, newWithScale_self]
  · rw [rescaleSteps_finer hless hscale hmore, if_pos (UInt8.le_of_lt hless), hmore,
      Nat.add_sub_cancel_left, halfAwayAt_finer hmore]
  · rw [rescaleSteps_coarser hless hmore, if_neg (UInt8.not_le.mpr hless), hmore,
      Nat.add_sub_cancel_left, tdiv_two_pow, halfAwayAt_eq_tdiv hmore]

theorem inI128_eq (n : ℤ) : inI128 n = decide (Fits 128 n) := by
  rw [Bool.eq_iff_iff, inI128_iff, decide_eq_true_iff]
  rfl

/-- No step of the rescaling wraps or panics where the exact one does not. -/
theorem rescaleSteps_eq_rescale (num : Numeric) {scale : UInt8} (hscale : scale ≤ 38) :
    num.rescaleSteps scale = num.rescale scale := by
  have hmax := num.scale_toNat_le
  have hmax' : scale.toNat ≤ 38 := UInt8.le_iff_toNat_le.mp hscale
  rcases scale_cases num.scale scale with rfl | ⟨hless, more, hmore⟩ | ⟨hless, less, hmore⟩
  · rw [rescaleSteps, rescale, if_pos rfl, if_pos rfl]
  · have hpow : Fits 128 (10 ^ more) := fits_pow_ten (by omega)
    rw [rescaleSteps_finer hless hscale hmore, rescale_finer hless hmore, inI128_eq, inI128_eq,
      decide_eq_true hpow, Bool.true_and]
    simp only [decide_eq_true_eq]
  · have hpow : Fits 128 (10 ^ (less + 1)) := fits_pow_ten (by omega)
    rw [rescaleSteps_coarser hless hmore, rescale_coarser hless hmore, inI128_eq, inI128_eq,
      decide_eq_true hpow, Bool.true_and]
    simp only [decide_eq_true_eq]

section Money

theorem toMoney_finer {num : Numeric} {more : ℕ} (hscale : 4 = num.scale.toNat + more) :
    num.toMoney =
      if Fits 128 (num.value * 10 ^ more) then some (num.halfAwayAt 4) else none := by
  rw [toMoney, @halfAwayAt_finer num 4 more hscale]
  cases more with
  | zero =>
    have hkept : num.value * 10 ^ 0 = num.value := by rw [pow_zero, mul_one]
    have hfour : num.scale.toNat = 4 := hscale.symm
    rw [if_pos hfour, hkept, if_pos num.fits]
  | succ more =>
    rw [if_neg (by omega), if_pos (by omega),
      show 4 - num.scale.toNat = more + 1 by omega]
    simp only [inI128_eq, decide_eq_true_eq]

/-- A finer number is rounded by its remainder, which comes to the same. -/
theorem toMoney_coarser {num : Numeric} {less : ℕ} (hscale : num.scale.toNat = 4 + (less + 1)) :
    num.toMoney = some (num.halfAwayAt 4) := by
  have hdivisor : (0 : ℤ) < 10 ^ (less + 1) := by positivity
  rw [toMoney, if_neg (by omega), if_neg (by omega), hscale, Nat.add_sub_cancel_left,
    @halfAwayAt_coarser num 4 _ hscale, ← tdiv_add_sign hdivisor]

/-- A number that can be rescaled for a column of scale four is the same amount of
money. -/
theorem toMoney_of_fits {num : Numeric} (hfits : Fits 128 (num.intermediate 4)) :
    num.toMoney = some (num.halfAwayAt 4) := by
  rcases scale_cases num.scale 4 with heq | ⟨-, more, hmore⟩ | ⟨-, less, hless⟩
  · rw [@toMoney_finer num 0 (congrArg UInt8.toNat heq), ← halfAwayAt_finer (congrArg _ heq),
      if_pos (fits_halfAwayAt hfits)]
  · rw [toMoney_finer hmore, ← @halfAwayAt_finer num 4 more hmore, if_pos (fits_halfAwayAt hfits)]
  · exact toMoney_coarser hless

end Money

/-- A number at the scale of its column. It is written as the exact value rounded
half away from zero, and as the same amount of money if the scale is that of money;
or it is refused with nothing written. -/
structure SentAt [StdLib] [EncodingRs] (num : Numeric) (ty : TypeInfo) (scale : UInt8) : Prop where
  exact : num.rescaleSteps scale = num.rescale scale
  sends : Fits 128 (num.intermediate scale) → ∃ after,
    num.rescaleSteps scale = .ok after ∧ after.scale = scale ∧
      after.value = num.halfAwayAt scale ∧
      (ColumnData.numeric (some num)).encode (some ty) = after.encode ∧
      (scale = 4 → num.toMoney = some after.value)
  refuses : ¬ Fits 128 (num.intermediate scale) →
    num.rescaleSteps scale = rescaleOverflow ∧
      (ColumnData.numeric (some num)).encode (some ty) =
        .fail (.error (.protocol "numeric rescale overflow"))

theorem sentAt_of_scale_le [StdLib] [EncodingRs] (num : Numeric) {ty : VarLenType} {size : ℕ}
    {precision scale : UInt8} (hty : ty = .decimaln ∨ ty = .numericn) (hscale : scale ≤ 38) :
    num.SentAt (.varLenSizedPrecision ty size precision scale) scale := by
  have hencode : (ColumnData.numeric (some num)).encode
      (some (.varLenSizedPrecision ty size precision scale)) =
      (Written.ofExcept (num.rescale scale)).bind fun num => num.encode := by
    rcases hty with rfl | rfl <;> rfl
  have hsteps := num.rescaleSteps_eq hscale
  refine ⟨num.rescaleSteps_eq_rescale hscale, fun hfits => ?_, fun hfits => ?_⟩
  · have hvalue := fits_halfAwayAt hfits
    rw [if_pos hfits, newWithScale, dif_pos ⟨hvalue, hscale⟩] at hsteps
    refine ⟨_, hsteps, rfl, rfl, ?_, ?_⟩
    · rw [hencode, ← num.rescaleSteps_eq_rescale hscale, hsteps]
      rfl
    · rintro rfl
      exact toMoney_of_fits hfits
  · rw [if_neg hfits] at hsteps
    refine ⟨hsteps, ?_⟩
    rw [hencode, ← num.rescaleSteps_eq_rescale hscale, hsteps]
    rfl

/-- Whatever a server describes as the scale of a column. -/
theorem rescale_exact [StdLib] [EncodingRs] {env : Context} {bytes : List UInt8} {ty : VarLenType}
    {size : ℕ} {precision scale : UInt8}
    (hdecoded : TypeInfo.decode.Reads env bytes (.varLenSizedPrecision ty size precision scale))
    (num : Numeric) : num.SentAt (.varLenSizedPrecision ty size precision scale) scale := by
  obtain ⟨hty, hprecision, hscale⟩ := TypeInfo.precision_of_decode hdecoded
  apply num.sentAt_of_scale_le hty
  exact UInt8.le_trans hscale hprecision

/-- A tie below zero, in a column of 19 digits with 4 of them behind the point. -/
theorem rescale_exact_tie :
    @SentAt .exact .ascii ⟨-12345, 5, by decide, by decide, by decide⟩
      (.varLenSizedPrecision .numericn 9 19 4) 4 :=
  @rescale_exact .exact .ascii .new [0x6C, 9, 19, 4] _ _ _ _
    (decode_numericn (by decide) (by decide)) _

end Numeric

end Tiberius
