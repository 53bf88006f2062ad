import Mathlib.Algebra.Field.Rat
import Mathlib.Data.List.TakeWhile

/-!
Decimal numbers as text: an optional minus, digits, a point and digits. A text is
read as the rational number it denotes, with the number of digits behind the point.
-/

namespace DecimalText

/-- The number of a group of digits, which is not empty. -/
def natural (digits : List Char) : Option ℕ :=
  if digits ≠ [] ∧ digits.all Char.isDigit then some (Nat.ofDigitChars 10 digits 0) else none

/-- The digits in front of the first point and those behind it. -/
def unsigned (text : List Char) : Option (ℚ × ℕ) := do
  let whole ← natural (text.takeWhile (· != '.'))
  let fraction ← natural (text.dropWhile (· != '.')).tail
  let digits := (text.dropWhile (· != '.')).tail.length
  some ((whole : ℚ) + fraction / 10 ^ digits, digits)

def signed : List Char → Option (ℚ × ℕ)
  | '-' :: text => (unsigned text).map fun number => (-number.1, number.2)
  | text => unsigned text

theorem natural_eq_some {digits : List Char} (hpos : digits ≠ [])
    (hdigits : ∀ c ∈ digits, c.isDigit) :
    natural digits = some (Nat.ofDigitChars 10 digits 0) :=
  if_pos ⟨hpos, List.all_eq_true.mpr hdigits⟩

theorem natural_eq_some_iff {digits : List Char} {n : ℕ} :
    natural digits = some n ↔
      digits ≠ [] ∧ (∀ c ∈ digits, c.isDigit) ∧ Nat.ofDigitChars 10 digits 0 = n := by
  constructor
  · intro hnatural
    unfold natural at hnatural
    split at hnatural
    next hdigits => exact ⟨hdigits.1, List.all_eq_true.mp hdigits.2, Option.some.inj hnatural⟩
    next => cases hnatural
  · rintro ⟨hpos, hdigits, rfl⟩
    exact natural_eq_some hpos hdigits

theorem isDigit_of_mem_toDigits {n : ℕ} {c : Char} (hc : c ∈ Nat.toDigits 10 n) : c.isDigit :=
  Nat.isDigit_of_mem_toDigits (by decide) (Nat.le_refl 10) hc

/-- Zeros in front of a number do not count. -/
theorem natural_padded (zeros n : ℕ) :
    natural (List.replicate zeros '0' ++ Nat.toDigits 10 n) = some n := by
  rw [natural_eq_some]
  · rw [Nat.ofDigitChars_append, Nat.ofDigitChars_replicate_zero, Nat.mul_zero,
      Nat.ofDigitChars_ten_toDigits]
  · simp only [ne_eq, List.append_eq_nil_iff, Nat.toDigits_ne_nil, and_false, not_false_eq_true]
  · intro c hc
    rcases List.mem_append.mp hc with hzero | hdigit
    · rw [List.eq_of_mem_replicate hzero]
      decide
    · exact isDigit_of_mem_toDigits hdigit

theorem natural_toDigits (n : ℕ) : natural (Nat.toDigits 10 n) = some n := natural_padded 0 n

theorem unsigned_of_natural {whole fraction : List Char} {w f : ℕ}
    (hdigits : ∀ c ∈ whole, c.isDigit) (hwhole : natural whole = some w)
    (hfraction : natural fraction = some f) :
    unsigned (whole ++ '.' :: fraction) =
      some ((w : ℚ) + f / 10 ^ fraction.length, fraction.length) := by
  have hpoint : ∀ c ∈ whole, (c != '.') = true := by
    intro c hc
    rw [bne_iff_ne]
    rintro rfl
    exact absurd (hdigits _ hc) (by decide)
  have htake : (whole ++ '.' :: fraction).takeWhile (· != '.') = whole := by
    rw [List.takeWhile_append_of_pos hpoint, List.takeWhile_cons_of_neg (by decide),
      List.append_nil]
  have hdrop : (whole ++ '.' :: fraction).dropWhile (· != '.') = '.' :: fraction := by
    rw [List.dropWhile_append_of_pos hpoint, List.dropWhile_cons_of_neg (by decide)]
  rw [unsigned, htake, hdrop, hwhole, List.tail_cons, hfraction]
  rfl

theorem signed_neg (text : List Char) :
    signed ('-' :: text) = (unsigned text).map fun number => (-number.1, number.2) := rfl

/-- A text that begins with a digit has no sign. -/
theorem signed_of_isDigit {c : Char} {text : List Char} (hc : c.isDigit) :
    signed (c :: text) = unsigned (c :: text) := by
  unfold signed
  split
  next heq =>
    cases heq
    exact absurd hc (by decide)
  next => rfl

end DecimalText
