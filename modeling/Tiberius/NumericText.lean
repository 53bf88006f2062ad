import Tiberius.NumericEquality
import Tiberius.Text.Decimal

/-!
Numbers as they are displayed. The sign, the part in front of the point and the part
behind it are computed one by one with truncating division on 128 bits, and only the
sizes of the two parts are printed.
-/

namespace Tiberius

open Machine

namespace Numeric

def powScaleSteps (build : Build) (num : Numeric) : Option ℤ :=
  build.plain 128 (10 ^ num.scale.toNat)

def intPartSteps (build : Build) (num : Numeric) : Option ℤ := do
  let scale ← num.powScaleSteps build
  quotient 128 num.value scale

def decPartSteps (build : Build) (num : Numeric) : Option ℤ := do
  let scale ← num.powScaleSteps build
  let whole ← quotient 128 num.value scale
  let product ← build.plain 128 (whole * scale)
  build.plain 128 (num.value - product)

/-- `{:0pad$}`: zeros in front of a number up to some width. -/
def zeroPadded (pad n : ℕ) : List Char :=
  List.replicate (pad - (Nat.toDigits 10 n).length) '0' ++ Nat.toDigits 10 n

/-- `{:?}` and `{}`. No text is a panic. -/
def fmtSteps (build : Build) (num : Numeric) : Option String := do
  let whole ← num.intPartSteps build
  let fraction ← num.decPartSteps build
  some ((if num.value < 0 then "-" else "") ++ toString whole.natAbs ++ "." ++
    String.ofList (zeroPadded num.scale.toNat fraction.natAbs))

theorem powScale_pos (num : Numeric) : 0 < num.powScale := by
  rw [powScale]
  exact Int.pow_pos (by decide)

theorem powScaleSteps_eq (build : Build) (num : Numeric) :
    num.powScaleSteps build = some num.powScale :=
  build.plain_of_fits (fits_pow_ten num.scale_toNat_le)

/-- What is behind the point is the remainder of the division. -/
theorem decPart_eq_tmod (num : Numeric) : num.decPart = num.value.tmod num.powScale := by
  rw [decPart, intPart, Int.tmod_def, Int.mul_comm]

/-- Both parts lie between zero and the number. -/
theorem fits_parts (num : Numeric) :
    Fits 128 (num.intPart * num.powScale) ∧ Fits 128 num.decPart := by
  have hsum : num.intPart * num.powScale + num.decPart = num.value := by
    rw [decPart]
    omega
  have hfits := num.fits
  have hle : num.decPart.natAbs ≤ num.value.natAbs := by
    rw [decPart_eq_tmod, Int.natAbs_tmod]
    exact Nat.mod_le _ _
  have hpos : 0 ≤ num.value → 0 ≤ num.decPart := by
    intro hvalue
    rw [decPart_eq_tmod]
    exact Int.tmod_nonneg _ hvalue
  have hneg : num.value < 0 → num.decPart ≤ 0 := by
    intro hvalue
    have hrest : 0 ≤ (-num.value).tmod num.powScale := Int.tmod_nonneg _ (by omega)
    rw [Int.neg_tmod, ← decPart_eq_tmod] at hrest
    omega
  unfold Fits at *
  omega

theorem intPartSteps_eq (build : Build) (num : Numeric) :
    num.intPartSteps build = some num.intPart := by
  rw [intPartSteps, powScaleSteps_eq, Option.bind_eq_bind, Option.bind_some,
    quotient_of_pos num.fits num.powScale_pos]
  rfl

theorem decPartSteps_eq (build : Build) (num : Numeric) :
    num.decPartSteps build = some num.decPart := by
  obtain ⟨hproduct, hrest⟩ := num.fits_parts
  simp only [decPartSteps, powScaleSteps_eq, Option.bind_eq_bind, Option.bind_some,
    quotient_of_pos num.fits num.powScale_pos]
  change (build.plain 128 (num.intPart * num.powScale)).bind _ = _
  rw [build.plain_of_fits hproduct, Option.bind_some]
  exact build.plain_of_fits hrest

/-- No build panics, and both print the same. -/
theorem fmtSteps_eq (build : Build) (num : Numeric) : num.fmtSteps build = some num.display := by
  rw [fmtSteps, intPartSteps_eq, decPartSteps_eq]
  rfl

theorem zeroPadded_length {pad n : ℕ} (hn : n < 10 ^ pad) :
    (zeroPadded pad n).length = max 1 pad := by
  have hpos : 0 < (Nat.toDigits 10 n).length := Nat.length_toDigits_pos
  have hle : (Nat.toDigits 10 n).length ≤ max 1 pad := by
    rw [Nat.length_toDigits_le_iff (by decide) (by omega)]
    exact Nat.lt_of_lt_of_le hn (Nat.pow_le_pow_right (by decide) (by omega))
  rw [zeroPadded, List.length_append, List.length_replicate]
  omega

theorem natural_zeroPadded (pad n : ℕ) : DecimalText.natural (zeroPadded pad n) = some n :=
  DecimalText.natural_padded _ n

/-- The quotient and the remainder of a power of ten make up the fraction. -/
theorem div_add_mod_div (n scale : ℕ) :
    ((n / 10 ^ scale : ℕ) : ℚ) + ((n % 10 ^ scale : ℕ) : ℚ) / 10 ^ max 1 scale =
      n / 10 ^ scale := by
  have hpow : (10 : ℚ) ^ scale ≠ 0 := pow_ne_zero _ (by norm_num)
  have hsplit : (n : ℚ) = 10 ^ scale * (n / 10 ^ scale : ℕ) + (n % 10 ^ scale : ℕ) := by
    exact_mod_cast (Nat.div_add_mod n (10 ^ scale)).symm
  rcases Nat.eq_zero_or_pos scale with rfl | hpos
  · simp only [pow_zero, Nat.div_one, Nat.mod_one, Nat.cast_zero, zero_div, add_zero, div_one]
  · rw [Nat.max_eq_right hpos, eq_div_iff hpow, add_mul, div_mul_cancel₀ _ hpow, mul_comm]
    exact hsplit.symm

/-- The two groups of digits of a displayed number. -/
theorem unsigned_display (num : Numeric) :
    DecimalText.unsigned (Nat.toDigits 10 num.intPart.natAbs ++
        '.' :: zeroPadded num.scale.toNat num.decPart.natAbs) =
      some ((num.value.natAbs : ℚ) / 10 ^ num.scale.toNat, max 1 num.scale.toNat) := by
  have hscale : num.powScale.natAbs = 10 ^ num.scale.toNat := Int.natAbs_pow 10 _
  have hdec : num.decPart.natAbs = num.value.natAbs % 10 ^ num.scale.toNat := by
    rw [decPart_eq_tmod, Int.natAbs_tmod, hscale]
  have hlt : num.decPart.natAbs < 10 ^ num.scale.toNat := by
    rw [hdec]
    exact Nat.mod_lt _ (Nat.pow_pos (by decide))
  rw [DecimalText.unsigned_of_natural (fun c hc => DecimalText.isDigit_of_mem_toDigits hc)
    (DecimalText.natural_toDigits _) (natural_zeroPadded _ _), zeroPadded_length hlt, hdec,
    num.intPart_natAbs, div_add_mod_div]

theorem display_toList (num : Numeric) :
    num.display.toList = (if num.value < 0 then ['-'] else []) ++
      (Nat.toDigits 10 num.intPart.natAbs ++
        '.' :: zeroPadded num.scale.toNat num.decPart.natAbs) := by
  have hsign : (if num.value < 0 then "-" else "").toList =
      if num.value < 0 then ['-'] else [] := by
    split_ifs <;> rfl
  rw [display, String.toList_append, String.toList_append, String.toList_append,
    hsign, Nat.toString_eq_repr, Nat.toList_repr, List.append_assoc, List.append_assoc]
  exact congrArg (fun fraction => _ ++ (_ ++ '.' :: fraction)) String.toList_ofList

/-- A text without a minus is read without one. -/
theorem signed_display (num : Numeric) :
    DecimalText.signed (Nat.toDigits 10 num.intPart.natAbs ++
        '.' :: zeroPadded num.scale.toNat num.decPart.natAbs) =
      some ((num.value.natAbs : ℚ) / 10 ^ num.scale.toNat, max 1 num.scale.toNat) := by
  rw [← unsigned_display]
  cases hdigits : Nat.toDigits 10 num.intPart.natAbs with
  | nil => exact absurd hdigits Nat.toDigits_ne_nil
  | cons c rest =>
    apply DecimalText.signed_of_isDigit
    apply DecimalText.isDigit_of_mem_toDigits (n := num.intPart.natAbs)
    rw [hdigits]
    exact List.mem_cons_self

/-- Every number is displayed by either build, as the decimal that it stands for and
with a digit behind the point for each of its scale, or one. -/
theorem display_denotes (build : Build) (num : Numeric) :
    ∃ text, num.fmtSteps build = some text ∧
      DecimalText.signed text.toList = some (num.toRat, max 1 num.scale.toNat) := by
  refine ⟨num.display, num.fmtSteps_eq build, ?_⟩
  rw [display_toList]
  by_cases hneg : num.value < 0
  · have hvalue : (num.value.natAbs : ℚ) = -num.value := by
      rw [← Int.cast_natCast, Int.ofNat_natAbs_of_nonpos (Int.le_of_lt hneg), Int.cast_neg]
    rw [if_pos hneg, List.singleton_append, DecimalText.signed_neg, unsigned_display,
      Option.map_some, hvalue, toRat, neg_div, neg_neg]
  · have hvalue : (num.value.natAbs : ℚ) = num.value := by
      rw [← Int.cast_natCast, Int.natAbs_of_nonneg (Int.not_lt.mp hneg)]
    rw [if_neg hneg, List.nil_append, signed_display, hvalue, toRat]

end Numeric

end Tiberius
