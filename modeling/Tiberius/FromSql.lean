import Tiberius.Calendar.Days
import Tiberius.RoundTrip

/-!
What the conversions of column values to types of the caller have in common. A
value of the wrong kind is refused with a text that names it and the type that was
asked for, and NULL is no value of any type.
-/

namespace Tiberius

section

variable {α β : Type}

/-- `Option::unwrap`, and `Result::unwrap` where the error is of no interest. -/
def unwrap : Option α → Except Fault α
  | some value => .ok value
  | none => .error .panic

/-- `ok_or_else` with an error of the protocol. -/
def orProtocol (message : String) : Option α → Except Fault α
  | some value => .ok value
  | none => .error (.error (.protocol message))

/-- The arm of `from_sql!` for a value of another kind. -/
def cannotInterpret [StdLib] (data : ColumnData) (ty : String) : Except Fault α :=
  .error (.error (.conversion
    ("cannot interpret " ++ StdLib.debugColumnData data ++ " as an " ++ ty ++ " value")))

/-- A value that may be NULL. -/
def nullable (convert : α → Except Fault β) : Option α → Except Fault (Option β)
  | some value => (convert value).map some
  | none => .ok none

/-- `u64::saturating_mul`. -/
def saturatingMul (a b : ℕ) : ℕ := min (a * b) (2 ^ 64 - 1)

/-- `10u64.saturating_pow`. -/
def saturatingPow10 (pow : ℕ) : ℕ := min (10 ^ pow) (2 ^ 64 - 1)

end

namespace Time

open Calendar

/-- The nanoseconds since midnight that a time stands for. -/
def nanos (time : Time) : ℕ := time.increments.toNat * 10 ^ (9 - time.scale.toNat)

/-- A time below 24 hours, of a scale that SQL Server has. -/
def InDay (time : Time) : Prop :=
  time.scale ≤ 7 ∧ time.increments.toNat < 86400 * 10 ^ time.scale.toNat

/-- The time at scale 7, cut off to its increments of 100 nanoseconds. -/
def ofNanos (nanos : ℕ) : Time where
  increments := UInt64.ofNat (nanos / 100)
  scale := 7

theorem InDay.nanos_lt {time : Time} (htime : time.InDay) : time.nanos < nanosPerDay := by
  have hscale := UInt8.le_iff_toNat_le.mp htime.1
  simp only [UInt8.reduceToNat] at hscale
  have hsplit : 10 ^ time.scale.toNat * 10 ^ (9 - time.scale.toNat) = 10 ^ 9 := by
    rw [← Nat.pow_add, Nat.add_sub_cancel' (by omega)]
  calc time.increments.toNat * 10 ^ (9 - time.scale.toNat)
      < 86400 * 10 ^ time.scale.toNat * 10 ^ (9 - time.scale.toNat) :=
        Nat.mul_lt_mul_of_pos_right htime.2 (Nat.pow_pos (by decide))
    _ = 86400 * 10 ^ 9 := by rw [Nat.mul_assoc, hsplit]

/-- The product of the increments is cut off at bounds that a time stays below. -/
theorem saturatingMul_eq {time : Time} (htime : time.nanos < 2 ^ 63) :
    saturatingMul time.increments.toNat (saturatingPow10 (9 - time.scale.toNat)) = time.nanos := by
  have hpow : saturatingPow10 (9 - time.scale.toNat) = 10 ^ (9 - time.scale.toNat) := by
    apply Nat.min_eq_left
    have hle : 10 ^ (9 - time.scale.toNat) ≤ 10 ^ 9 :=
      Nat.pow_le_pow_right (by decide) (Nat.sub_le 9 _)
    omega
  rw [hpow]
  apply Nat.min_eq_left
  unfold nanos at htime
  omega

theorem InDay.saturatingMul_eq {time : Time} (htime : time.InDay) :
    saturatingMul time.increments.toNat (saturatingPow10 (9 - time.scale.toNat)) = time.nanos := by
  have hlt := htime.nanos_lt
  unfold nanosPerDay at hlt
  exact Time.saturatingMul_eq (by omega)

/-- The times that the wire has room for are far from those bounds. -/
theorem Fits.nanos_lt {time : Time} (htime : time.Fits) : time.nanos < 2 ^ 63 := by
  have hpow : ∀ most, 9 - time.scale.toNat ≤ most → 10 ^ (9 - time.scale.toNat) ≤ 10 ^ most :=
    fun most hmost => Nat.pow_le_pow_right (by decide) hmost
  unfold nanos
  rcases htime with ⟨-, hfits⟩ | ⟨⟨hthree, -⟩, hfits⟩ | ⟨⟨hfive, -⟩, hfits⟩
  · calc time.increments.toNat * 10 ^ (9 - time.scale.toNat)
        ≤ 256 ^ 3 * 10 ^ 9 := Nat.mul_le_mul (Nat.le_of_lt hfits) (hpow 9 (by omega))
      _ < 2 ^ 63 := by decide
  · have hlow : 3 ≤ time.scale.toNat := UInt8.le_iff_toNat_le.mp hthree
    calc time.increments.toNat * 10 ^ (9 - time.scale.toNat)
        ≤ 256 ^ 4 * 10 ^ 6 := Nat.mul_le_mul (Nat.le_of_lt hfits) (hpow 6 (by omega))
      _ < 2 ^ 63 := by decide
  · have hlow : 5 ≤ time.scale.toNat := UInt8.le_iff_toNat_le.mp hfive
    calc time.increments.toNat * 10 ^ (9 - time.scale.toNat)
        ≤ 256 ^ 5 * 10 ^ 4 := Nat.mul_le_mul (Nat.le_of_lt hfits) (hpow 4 (by omega))
      _ < 2 ^ 63 := by decide

theorem ofNanos_increments {nanos : ℕ} (hnanos : nanos < nanosPerDay) :
    (ofNanos nanos).increments.toNat = nanos / 100 := by
  unfold nanosPerDay at hnanos
  exact UInt64.toNat_ofNat_of_lt' (by show nanos / 100 < 2 ^ 64; omega)

theorem ofNanos_inDay {nanos : ℕ} (hnanos : nanos < nanosPerDay) : (ofNanos nanos).InDay := by
  refine ⟨UInt8.le_refl 7, ?_⟩
  rw [ofNanos_increments hnanos]
  unfold nanosPerDay at hnanos
  change nanos / 100 < 86400 * 10 ^ 7
  omega

theorem ofNanos_nanos {nanos : ℕ} (hnanos : nanos < nanosPerDay) :
    (ofNanos nanos).nanos = nanos / 100 * 100 := by
  unfold Time.nanos
  rw [ofNanos_increments hnanos]
  rfl

theorem InDay.fits {time : Time} (htime : time.InDay) (hscale : time.scale = 7) : time.Fits := by
  refine .inr (.inr ⟨by rw [hscale]; decide, ?_⟩)
  have hlt := htime.2
  rw [hscale] at hlt
  change time.increments.toNat < 86400 * 10 ^ 7 at hlt
  omega

end Time

/-- `Date::new` outside of a decoder. -/
def Date.ofDays (days : UInt32) : Except Fault Date :=
  if days >>> 24 = 0 then .ok { days := days } else .error .panic

/-- The date with a day number. -/
def Date.ofDay (day : ℤ) : Date where
  days := UInt32.ofInt day

/-- The cast to an unsigned number wraps around. -/
theorem Date.ofDay_mod (day : ℤ) : ((Date.ofDay day).days.toNat : ℤ) = day % 2 ^ 32 := by
  have hlt : (day % 2 ^ 32).toNat < 2 ^ 32 := by omega
  unfold Date.ofDay UInt32.ofInt
  rw [UInt32.toNat_ofNat_of_lt' hlt]
  omega

theorem Date.ofDay_days {day : ℤ} (hday : Calendar.InYears 1 9999 day) :
    ((Date.ofDay day).days.toNat : ℤ) = day ∧ (Date.ofDay day).days.toNat < 2 ^ 24 := by
  have hlow : 0 ≤ day := hday.1
  have hhigh : day < 3652059 := hday.2
  have hmod := Date.ofDay_mod day
  constructor <;> omega

theorem Date.ofDays_ofDay {day : ℤ} (hday : Calendar.InYears 1 9999 day) :
    Date.ofDays (UInt32.ofInt day) = .ok (Date.ofDay day) := by
  have hshift : UInt32.ofInt day >>> 24 = 0 := by
    apply UInt32.toNat.inj
    rw [UInt32.toNat_shiftRight, Nat.shiftRight_eq_div_pow]
    exact Nat.div_eq_of_lt (Date.ofDay_days hday).2
  exact if_pos hshift

end Tiberius
