import Tiberius.NumericRescale

/-!
Numbers in a column of money. The amount is computed on 128 bits in ten-thousandths
and goes out in one word or in two, a signed word in front of an unsigned one. The
decoder puts the two together in binary64, where large amounts are not exact.
-/

namespace Tiberius

open Reading Reader Program Writing Writer Machine Rounding

namespace Numeric

def moneyOverflow {α : Type} (num : Numeric) : Except Fault α :=
  .error (.error (.bulkInput
    ("money: value " ++ num.display ++ " overflows while rescaling to money")))

/-- A division that rounds half away from zero by its remainder. -/
def divideSteps (build : Build) (value divisor : ℤ) : Except Fault ℤ := do
  let quotient ← orPanic (quotient 128 value divisor)
  let rest ← orPanic (Machine.remainder 128 value divisor)
  let rest ← orPanic (build.plain 128 rest.natAbs)
  let twice ← orPanic (build.plain 128 (rest * 2))
  if divisor ≤ twice then orPanic (build.plain 128 (quotient + value.sign))
  else .ok quotient

/-- The amount that `money::encode_numeric_inner` computes. -/
def moneySteps (build : Build) (num : Numeric) : Except Fault ℤ :=
  if num.scale.toNat = 4 then .ok num.value
  else if num.scale.toNat < 4 then do
    let factor ← orPanic (build.plain 128 (10 ^ (4 - num.scale.toNat)))
    match Machine.checked 128 (num.value * factor) with
    | some scaled => .ok scaled
    | none => num.moneyOverflow
  else do
    let divisor ← orPanic (build.plain 128 (10 ^ (num.scale.toNat - 4)))
    divideSteps build num.value divisor

theorem moneySteps_finer (build : Build) {num : Numeric} {more : ℕ}
    (hscale : 4 = num.scale.toNat + more) :
    num.moneySteps build =
      if Fits 128 (num.value * 10 ^ more) then .ok (num.halfAwayAt 4) else num.moneyOverflow := by
  rw [moneySteps, @halfAwayAt_finer num 4 more hscale]
  cases more with
  | zero =>
    have hkept : num.value * 10 ^ 0 = num.value := by rw [pow_zero, mul_one]
    have hfour : num.scale.toNat = 4 := hscale.symm
    rw [if_pos hfour, hkept, if_pos num.fits]
  | succ more =>
    rw [if_neg (by omega), if_pos (by omega), show 4 - num.scale.toNat = more + 1 by omega,
      build.plain_of_fits (fits_pow_ten (by omega))]
    by_cases hfits : Fits 128 (num.value * 10 ^ (more + 1))
    · rw [if_pos hfits]
      change (match Machine.checked 128 _ with | some scaled => _ | none => _) = _
      rw [checked_of_fits hfits]
    · rw [if_neg hfits]
      change (match Machine.checked 128 _ with | some scaled => _ | none => _) = _
      rw [checked_of_not_fits hfits]

@[simp] theorem orPanic_some_bind {α β : Type} (value : α) (f : α → Except Fault β) :
    (orPanic (some value) >>= f) = f value := rfl

/-- A division by ten or more leaves room for all that is done with its result. -/
theorem divideSteps_eq (build : Build) {value divisor : ℤ} (hvalue : Fits 128 value)
    (hten : 10 ≤ divisor) (hlarge : divisor < 2 ^ 120) :
    divideSteps build value divisor =
      .ok (if divisor ≤ (value.tmod divisor).natAbs * 2 then value.tdiv divisor + value.sign
        else value.tdiv divisor) := by
  have hpos : 0 < divisor := by omega
  have hquotient : (value.tdiv divisor).natAbs ≤ value.natAbs / 10 := by
    rw [Int.natAbs_tdiv]
    exact Nat.div_le_div_left (by omega) (by decide)
  have hrest : (value.tmod divisor).natAbs < divisor.natAbs := by
    rw [Int.natAbs_tmod]
    exact Nat.mod_lt _ (by omega)
  have hsign : value.sign.natAbs ≤ 1 := by
    rw [Int.natAbs_sign]
    split <;> decide
  have hsum : Fits 128 (value.tdiv divisor + value.sign) := by
    unfold Fits at *
    omega
  have habs : Fits 128 ((value.tmod divisor).natAbs : ℤ) := by
    unfold Fits
    omega
  have htwice : Fits 128 (((value.tmod divisor).natAbs : ℤ) * 2) := by
    unfold Fits
    omega
  rw [divideSteps, quotient_of_pos hvalue hpos, remainder_of_pos hvalue hpos, orPanic_some_bind,
    orPanic_some_bind, build.plain_of_fits habs, orPanic_some_bind, build.plain_of_fits htwice,
    orPanic_some_bind, build.plain_of_fits hsum]
  split_ifs <;> rfl

theorem moneySteps_coarser (build : Build) {num : Numeric} {less : ℕ}
    (hscale : num.scale.toNat = 4 + (less + 1)) :
    num.moneySteps build = .ok (num.halfAwayAt 4) := by
  have hmax := num.scale_toNat_le
  have hten : (10 : ℤ) ≤ 10 ^ (less + 1) := le_self_pow₀ (by decide) (by omega)
  have hlarge : (10 : ℤ) ^ (less + 1) ≤ 10 ^ 34 := pow_le_pow_right₀ (by decide) (by omega)
  have hless : (10 : ℤ) ^ 34 < 2 ^ 120 := by decide
  rw [moneySteps, if_neg (by omega), if_neg (by omega), hscale, Nat.add_sub_cancel_left,
    build.plain_of_fits (fits_pow_ten (by omega)), orPanic_some_bind,
    divideSteps_eq build num.fits hten (lt_of_le_of_lt hlarge hless),
    @halfAwayAt_coarser num 4 _ hscale, ← tdiv_add_sign (by omega)]

/-- No build goes wrong on the way to the amount. -/
theorem moneySteps_eq (build : Build) (num : Numeric) :
    num.moneySteps build =
      match num.toMoney with
      | some scaled => .ok scaled
      | none => num.moneyOverflow := by
  rcases Nat.lt_or_ge 4 num.scale.toNat with hfine | hcoarse
  · obtain ⟨less, hless⟩ := Nat.exists_eq_add_of_lt hfine
    rw [moneySteps_coarser build hless, toMoney_coarser hless]
  · obtain ⟨more, hmore⟩ := Nat.exists_eq_add_of_le hcoarse
    rw [moneySteps_finer build hmore, toMoney_finer hmore]
    split_ifs <;> rfl

/-- `money::encode_numeric_inner`: `encode_numeric` has a length byte in front, and
`encode_numeric_fixed` has none. -/
def encodeMoneySteps (build : Build) (maxLen : ℕ) (num : Numeric) (lengthPrefixed : Bool) :
    Writer Unit := do
  let scaled ← Written.ofExcept (num.moneySteps build)
  putScaled maxLen scaled num.display lengthPrefixed

theorem encodeMoneySteps_eq (build : Build) (maxLen : ℕ) (num : Numeric) (lengthPrefixed : Bool) :
    num.encodeMoneySteps build maxLen lengthPrefixed =
      encodeMoneyNumeric maxLen num lengthPrefixed := by
  rw [encodeMoneySteps, moneySteps_eq, encodeMoneyNumeric]
  cases num.toMoney <;> rfl

end Numeric

section Words

/-- The bits of an amount in a column of some declared length. -/
def moneyBits (maxLen : ℕ) : ℕ := if maxLen = 4 then 32 else 64

def moneyLen (maxLen : ℕ) : UInt8 := if maxLen = 4 then 4 else 8

/-- An amount in one signed word, or in a signed and an unsigned one. -/
def moneyWords (maxLen : ℕ) (scaled : ℤ) : List UInt8 :=
  if maxLen = 4 then toLe 4 (Int32.ofInt scaled).toUInt32.toNat
  else toLe 4 (Int32.ofInt (scaled / 2 ^ 32)).toUInt32.toNat ++
    toLe 4 (UInt32.ofNat (scaled % 2 ^ 32).toNat).toNat

/-- The words as `money::decode` reads them, put together without rounding. -/
def readMoneyWords (maxLen : ℕ) : Reader ℤ :=
  if maxLen = 4 then do
    let value ← readI32Le
    pure value.toInt
  else do
    let high ← readI32Le
    let low ← readU32Le
    pure (high.toInt * 2 ^ 32 + low.toNat)

theorem putScaled_of_fits {maxLen : ℕ} {scaled : ℤ} (hfits : Fits (moneyBits maxLen) scaled)
    (text : String) (lengthPrefixed : Bool) :
    putScaled maxLen scaled text lengthPrefixed =
      .done ((if lengthPrefixed then [moneyLen maxLen] else []) ++ moneyWords maxLen scaled) () := by
  unfold putScaled moneyLen moneyWords
  unfold moneyBits Fits at hfits
  split_ifs at hfits ⊢ <;> first | rfl | omega

theorem putScaled_of_not_fits {maxLen : ℕ} {scaled : ℤ}
    (hfits : ¬ Fits (moneyBits maxLen) scaled) (text : String) (lengthPrefixed : Bool) :
    ∃ message, putScaled maxLen scaled text lengthPrefixed = bulkInput message := by
  unfold putScaled
  unfold moneyBits Fits at hfits
  split_ifs at hfits ⊢ <;> first | exact ⟨_, rfl⟩ | omega

/-- The halves of an amount of 64 bits. -/
theorem words_joined {scaled : ℤ} (hfits : Fits 64 scaled) :
    (Int32.ofInt (scaled / 2 ^ 32)).toInt * 2 ^ 32 +
      (UInt32.ofNat (scaled % 2 ^ 32).toNat).toNat = scaled := by
  unfold Fits at hfits
  have hhigh : (Int32.ofInt (scaled / 2 ^ 32)).toInt = scaled / 2 ^ 32 := by
    apply Int32.toInt_ofInt_of_le <;> omega
  have hlow : ((UInt32.ofNat (scaled % 2 ^ 32).toNat).toNat : ℤ) = scaled % 2 ^ 32 := by
    rw [UInt32.toNat_ofNat']
    omega
  rw [hhigh, hlow, Int.mul_comm]
  exact Int.mul_ediv_add_emod scaled _

variable {env : Context}

theorem readMoneyWords_reads {maxLen : ℕ} {scaled : ℤ} (hfits : Fits (moneyBits maxLen) scaled) :
    (readMoneyWords maxLen).Reads env (moneyWords maxLen scaled) scaled := by
  unfold readMoneyWords moneyWords
  unfold moneyBits at hfits
  split_ifs at hfits ⊢
  · have hvalue : (Int32.ofInt scaled).toInt = scaled := by
      unfold Fits at hfits
      apply Int32.toInt_ofInt_of_le <;> omega
    refine Reads.bind_last (readI32Le_reads.mpr rfl) ?_
    rw [hvalue]
    exact ret_reads _
  · refine Reads.bind (readI32Le_reads.mpr rfl) (Reads.bind_last (readU32Le_reads.mpr rfl) ?_)
    rw [words_joined hfits]
    exact ret_reads _

/-- The sum of the words as `money::decode` forms it, rounded to binary64. -/
def roundedSum (exact : ℤ) : ℤ := exact.sign * roundToF64 exact.natAbs

theorem roundToF64_of_lt {n : ℕ} (hn : n < 2 ^ 53) : roundToF64 n = n := if_pos hn

theorem roundToF64_pos {n : ℕ} (hn : 0 < n) : 0 < roundToF64 n := by
  unfold roundToF64 roundHalfEven
  split_ifs with hsmall
  · exact hn
  · have hunit : 0 < 2 ^ (Nat.log2 n - 52) := Nat.pow_pos (by decide)
    have hle : 2 ^ (Nat.log2 n - 52) ≤ n :=
      Nat.le_trans (Nat.pow_le_pow_right (by decide) (Nat.sub_le _ _))
        (Nat.log2_self_le (by omega))
    have hquotient : 0 < n / 2 ^ (Nat.log2 n - 52) := Nat.div_pos hle hunit
    dsimp only
    split_ifs <;> positivity

theorem roundedSum_of_lt {scaled : ℤ} (hscaled : scaled.natAbs < 2 ^ 53) :
    roundedSum scaled = scaled := by
  rw [roundedSum, roundToF64_of_lt hscaled]
  exact Int.sign_mul_natAbs scaled

theorem roundedSum_natAbs (scaled : ℤ) : (roundedSum scaled).natAbs = roundToF64 scaled.natAbs := by
  rcases Int.lt_trichotomy scaled 0 with hneg | rfl | hpos
  · rw [roundedSum, Int.sign_eq_neg_one_of_neg hneg]
    omega
  · rfl
  · rw [roundedSum, Int.sign_eq_one_of_pos hpos]
    omega

theorem roundedSum_neg_iff (scaled : ℤ) : roundedSum scaled < 0 ↔ scaled < 0 := by
  rcases Int.lt_trichotomy scaled 0 with hneg | rfl | hpos
  · have hround : 0 < roundToF64 scaled.natAbs := roundToF64_pos (by omega)
    rw [roundedSum, Int.sign_eq_neg_one_of_neg hneg]
    omega
  · exact iff_of_false (by decide) (by decide)
  · rw [roundedSum, Int.sign_eq_one_of_pos hpos]
    omega

/-- The decoder divides the rounded sum of the words by ten thousand. -/
theorem decodeMoney_reads {maxLen : ℕ} {scaled : ℤ} (hfits : Fits (moneyBits maxLen) scaled) :
    (decodeMoney (moneyLen maxLen)).Reads env (moneyWords maxLen scaled)
      (.f64 (some (f64OfRatio (roundedSum scaled < 0) (roundedSum scaled).natAbs 10000))) := by
  have hdecode : decodeMoney (moneyLen maxLen) =
      (readMoneyWords maxLen).bind fun scaled => ret (.f64 (some (moneyToF64 scaled))) := by
    unfold readMoneyWords moneyLen
    split_ifs <;> rfl
  have hsum : moneyToF64 scaled =
      f64OfRatio (roundedSum scaled < 0) (roundedSum scaled).natAbs 10000 := by
    rw [moneyToF64, roundedSum_natAbs, decide_eq_decide.mpr (roundedSum_neg_iff scaled)]
  rw [hdecode, ← hsum]
  exact (readMoneyWords_reads hfits).bind_last (ret_reads _)

end Words

namespace Numeric

/-- A number in a column of money. The amount in ten-thousandths is sent and its words
are read back exactly if it fits the column, and the decoder has it up to the
rounding of the sum; otherwise the number is refused with nothing written. -/
structure SentAsMoney (num : Numeric) (build : Build) (maxLen : ℕ) (lengthPrefixed : Bool) :
    Prop where
  exact : num.encodeMoneySteps build maxLen lengthPrefixed =
    encodeMoneyNumeric maxLen num lengthPrefixed
  sends : Fits (moneyBits maxLen) (num.halfAwayAt 4) → ∃ words,
    encodeMoneyNumeric maxLen num lengthPrefixed =
      .done ((if lengthPrefixed then [moneyLen maxLen] else []) ++ words) () ∧
    ∀ env, (readMoneyWords maxLen).Reads env words (num.halfAwayAt 4) ∧
      ∃ sum, ((num.halfAwayAt 4).natAbs < 2 ^ 53 → sum = num.halfAwayAt 4) ∧
        sum = roundedSum (num.halfAwayAt 4) ∧
        (decodeMoney (moneyLen maxLen)).Reads env words
          (.f64 (some (f64OfRatio (sum < 0) sum.natAbs 10000)))
  refuses : ¬ Fits (moneyBits maxLen) (num.halfAwayAt 4) →
    ∃ message, encodeMoneyNumeric maxLen num lengthPrefixed = bulkInput message

/-- What overflows 128 bits is no amount of money. -/
theorem not_fits_of_toMoney_eq_none {num : Numeric} (hmoney : num.toMoney = none) (maxLen : ℕ) :
    ¬ Fits (moneyBits maxLen) (num.halfAwayAt 4) := by
  intro hfits
  have hwide : Fits 128 (num.halfAwayAt 4) := by
    unfold moneyBits Fits at *
    split_ifs at hfits <;> omega
  rcases Nat.lt_or_ge 4 num.scale.toNat with hfine | hcoarse
  · obtain ⟨less, hless⟩ := Nat.exists_eq_add_of_lt hfine
    rw [toMoney_coarser hless] at hmoney
    cases hmoney
  · obtain ⟨more, hmore⟩ := Nat.exists_eq_add_of_le hcoarse
    rw [toMoney_finer hmore, ← @halfAwayAt_finer num 4 more hmore, if_pos hwide] at hmoney
    cases hmoney

theorem toMoney_eq_some {num : Numeric} {scaled : ℤ} (hmoney : num.toMoney = some scaled) :
    scaled = num.halfAwayAt 4 := by
  rcases Nat.lt_or_ge 4 num.scale.toNat with hfine | hcoarse
  · obtain ⟨less, hless⟩ := Nat.exists_eq_add_of_lt hfine
    rw [toMoney_coarser hless] at hmoney
    exact (Option.some.inj hmoney).symm
  · obtain ⟨more, hmore⟩ := Nat.exists_eq_add_of_le hcoarse
    rw [toMoney_finer hmore] at hmoney
    split_ifs at hmoney
    exact (Option.some.inj hmoney).symm

theorem sent_as_money (build : Build) (maxLen : ℕ) (num : Numeric) (lengthPrefixed : Bool) :
    num.SentAsMoney build maxLen lengthPrefixed := by
  refine ⟨num.encodeMoneySteps_eq build maxLen lengthPrefixed, fun hfits => ?_, fun hfits => ?_⟩
  · cases hmoney : num.toMoney with
    | none => exact absurd hfits (not_fits_of_toMoney_eq_none hmoney maxLen)
    | some scaled =>
      obtain rfl := toMoney_eq_some hmoney
      rw [encodeMoneyNumeric, hmoney]
      refine ⟨_, putScaled_of_fits hfits _ _, fun env => ⟨readMoneyWords_reads hfits, ?_⟩⟩
      exact ⟨_, roundedSum_of_lt, rfl, decodeMoney_reads hfits⟩
  · rw [encodeMoneyNumeric]
    cases hmoney : num.toMoney with
    | none => exact ⟨_, rfl⟩
    | some scaled =>
      obtain rfl := toMoney_eq_some hmoney
      exact putScaled_of_not_fits hfits _ _

/-- One above `2 ^ 53` ten-thousandths is sent, and the sum of its words is not it. -/
theorem sent_as_money_inexact : ∃ num : Numeric,
    num.value = 2 ^ 53 + 1 ∧ num.scale = 4 ∧ num.halfAwayAt 4 = 2 ^ 53 + 1 ∧
      encodeMoneyNumeric 8 num false = .done (moneyWords 8 (2 ^ 53 + 1)) () ∧
      roundedSum (2 ^ 53 + 1) = 2 ^ 53 ∧
      ∀ env, (decodeMoney 8).Reads env (moneyWords 8 (2 ^ 53 + 1))
        (.f64 (some (f64OfRatio false (2 ^ 53) 10000))) := by
  refine ⟨⟨2 ^ 53 + 1, 4, by decide, by decide, by decide⟩, rfl, rfl, ?_, rfl, by decide, ?_⟩
  · rw [@halfAwayAt_finer _ 4 0 rfl]
    decide
  · intro env
    exact @decodeMoney_reads env 8 (2 ^ 53 + 1) (by decide)

end Numeric

end Tiberius
