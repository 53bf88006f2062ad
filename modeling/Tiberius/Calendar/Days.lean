import Mathlib.Data.Int.Notation
import Mathlib.Data.Nat.Notation

/-!
Dates of the Gregorian calendar as day numbers, and instants. The days are counted
from the first of January of year 1, which is day 0; an instant is a day number
with the nanoseconds that have gone by on that day.
-/

namespace Tiberius.Calendar

/-- The number of the first of January of a year: the years before it have 365 days
each and their leap days. -/
def firstDay (year : ℤ) : ℤ :=
  365 * (year - 1) + (year - 1) / 4 - (year - 1) / 100 + (year - 1) / 400

/-- The days of the years from `first` to `last`. -/
def InYears (first last day : ℤ) : Prop := firstDay first ≤ day ∧ day < firstDay (last + 1)

instance (first last day : ℤ) : Decidable (InYears first last day) :=
  inferInstanceAs (Decidable (_ ∧ _))

def nanosPerDay : ℕ := 86400 * 1000000000

def instant (day : ℤ) (nanos : ℕ) : ℤ := day * nanosPerDay + nanos

theorem exists_instant (time : ℤ) :
    ∃ day nanos, nanos < nanosPerDay ∧ instant day nanos = time := by
  refine ⟨time / nanosPerDay, (time % nanosPerDay).toNat, ?_, ?_⟩
  · unfold nanosPerDay
    omega
  · unfold instant nanosPerDay
    omega

/-- Less than a day before or after an instant is the day before at the earliest,
and the day after at the latest. -/
theorem day_of_shift {day day' shift : ℤ} {nanos nanos' : ℕ} (hnanos : nanos < nanosPerDay)
    (hnanos' : nanos' < nanosPerDay) (hlow : -(nanosPerDay : ℤ) < shift)
    (hhigh : shift < nanosPerDay) (hinstant : instant day' nanos' = instant day nanos + shift) :
    day - 1 ≤ day' ∧ day' ≤ day + 1 := by
  unfold instant nanosPerDay at *
  omega

/-- Where days are added exactly, they lead to the date of the day that they come to, or
there is no such date. -/
theorem add_days_cases {Date : Type} {number : Date → ℤ} {add : Date → ℤ → Option Date}
    (hadd : ∀ date days other, add date days = some other ↔ number other = number date + days)
    (date : Date) (days : ℤ) :
    (∃ other, add date days = some other ∧ number other = number date + days) ∨
      (∀ other, number other ≠ number date + days) ∧ add date days = none := by
  cases hsum : add date days with
  | some other => exact .inl ⟨other, rfl, (hadd date days other).mp hsum⟩
  | none =>
    refine .inr ⟨fun other hday => ?_, rfl⟩
    have hsome := (hadd date days other).mpr hday
    rw [hsum] at hsome
    cases hsome

/-- Days of a range, added within it. -/
theorem add_inside_iff {range : ℤ → Prop} [DecidablePred range]
    (date other : { day : ℤ // range day }) (days : ℤ) :
    (if h : range (date.val + days) then
        some (⟨date.val + days, h⟩ : { day : ℤ // range day }) else none) = some other ↔
      other.val = date.val + days := by
  constructor
  · intro hsome
    split at hsome
    · cases hsome
      rfl
    · cases hsome
  · intro hday
    have hinside : range (date.val + days) := hday ▸ other.property
    rw [dif_pos hinside]
    exact congrArg some (Subtype.ext hday.symm)

end Tiberius.Calendar
