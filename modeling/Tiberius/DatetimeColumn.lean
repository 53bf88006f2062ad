import Tiberius.Chrono
import Tiberius.Encoders

/-!
A `datetime2` sent to a `datetime` column. Its day is counted from 1900 and its time
of day in 1/300 seconds; both are narrowed by casts, and the dates before year 1
that come from `chrono` have been wrapped around before they arrive.
-/

namespace Tiberius

open Calendar Writing

/-- The time of day in 1/300 seconds, cut off. -/
def Time.fragments (time : Time) : ℕ := 300 * time.increments.toNat / 10 ^ time.scale.toNat

def Time.BelowDay (time : Time) : Prop := time.increments.toNat < 86400 * 10 ^ time.scale.toNat

/-- A value that stands for the day with some number is refused or converted: what is
converted is of 1900 or later and below 24 hours, and arrives as it is. -/
def DateTime2.ConvertsExactly (dt2 : DateTime2) (day : ℤ) : Prop :=
  match (datetime2ToDatetime dt2).result with
  | .ok dt => (daysYear1To1900 : ℤ) ≤ day ∧ dt2.time.BelowDay ∧
      dt.days.toInt = day - daysYear1To1900 ∧ dt.secondsFragments.toNat = dt2.time.fragments
  | .error fault => ∃ error, fault = .error error

/-- The product in nanoseconds loses nothing of the time. -/
theorem Time.fragments_eq {time : Time} (hscale : ¬ time.scale > 9) :
    time.increments.toNat * 10 ^ (9 - time.scale.toNat) * 300 / 1000000000 = time.fragments := by
  have hle : time.scale.toNat ≤ 9 := UInt8.le_iff_toNat_le.mp (UInt8.not_lt.mp hscale)
  have hsplit : 1000000000 = 10 ^ time.scale.toNat * 10 ^ (9 - time.scale.toNat) := by
    rw [← Nat.pow_add, Nat.add_sub_cancel' hle]
  have hnumerator : time.increments.toNat * 10 ^ (9 - time.scale.toNat) * 300 =
      300 * time.increments.toNat * 10 ^ (9 - time.scale.toNat) := by
    rw [Nat.mul_comm, Nat.mul_assoc]
  rw [hnumerator, hsplit, Nat.mul_div_mul_right _ _ (Nat.pow_pos (by decide))]
  rfl

theorem Time.BelowDay.fragments_lt {time : Time} (htime : time.BelowDay) :
    time.fragments < 25920000 := by
  have hpos : 0 < 10 ^ time.scale.toNat := Nat.pow_pos (by decide)
  unfold Time.BelowDay at htime
  rw [Time.fragments, Nat.div_lt_iff_lt_mul hpos]
  omega

theorem datetime2ToDatetime_result (dt2 : DateTime2) :
    ((dt2.date.days.toNat < daysYear1To1900 ∨ dt2.time.scale > 9) ∧
      ∃ error, (datetime2ToDatetime dt2).result = .error (.error error)) ∨
    (daysYear1To1900 ≤ dt2.date.days.toNat ∧ ¬ dt2.time.scale > 9 ∧
      (datetime2ToDatetime dt2).result = .ok
        { days := (UInt32.ofNat (dt2.date.days.toNat - daysYear1To1900)).toInt32
          secondsFragments := UInt32.ofNat dt2.time.fragments }) := by
  unfold datetime2ToDatetime
  split_ifs with hdays hscale
  · exact .inl ⟨.inl hdays, _, rfl⟩
  · exact .inl ⟨.inr hscale, _, rfl⟩
  · refine .inr ⟨Nat.le_of_not_lt hdays, hscale, ?_⟩
    rw [← Time.fragments_eq hscale]
    rfl

theorem toInt32_ofNat_of_lt {n : ℕ} (hn : n < 2 ^ 31) : (UInt32.ofNat n).toInt32.toInt = n := by
  rw [UInt32.toInt32_ofNat']
  exact Int32.toInt_ofNat_of_lt hn

/-- A value converts exactly unless its day or its time of day is beyond its field. -/
theorem DateTime2.convertsExactly_iff (dt2 : DateTime2) :
    dt2.ConvertsExactly dt2.date.days.toNat ↔
      dt2.date.days.toNat < daysYear1To1900 ∨ dt2.time.scale > 9 ∨
        (dt2.date.days.toNat - daysYear1To1900 < 2 ^ 31 ∧ dt2.time.BelowDay) := by
  unfold ConvertsExactly
  rcases datetime2ToDatetime_result dt2 with ⟨hrefused, error, herror⟩ | ⟨hdays, hscale, hdone⟩
  · rw [herror]
    have hreturned : ∃ other, Fault.error error = .error other := ⟨error, rfl⟩
    exact iff_of_true hreturned (hrefused.imp_right .inl)
  · rw [hdone]
    constructor
    · rintro ⟨-, htime, hexact, -⟩
      have hlt := Int32.toInt_lt (UInt32.ofNat (dt2.date.days.toNat - daysYear1To1900)).toInt32
      dsimp only at hexact
      exact .inr (.inr ⟨by omega, htime⟩)
    · rintro (hearly | hwide | ⟨hlt, htime⟩)
      · omega
      · exact absurd hwide hscale
      · have hfragments := htime.fragments_lt
        refine ⟨by omega, htime, ?_, ?_⟩
        · rw [toInt32_ofNat_of_lt hlt]
          omega
        · exact UInt32.toNat_ofNat_of_lt' (Nat.lt_trans hfragments (by decide))

namespace Chrono

open ChronoCrate

variable [ChronoCrate]

theorem timeOf_belowDay (hexact : Exact) (hranges : Ranges) (time : NaiveTime) :
    (timeOf time).BelowDay ↔ nanosOfDay time < nanosPerDay := by
  have hseconds := hexact.secondsLt time
  have hnanos := hranges.nanosecondLt time
  have hlt : nanosOfDay time / 100 < 2 ^ 64 := by
    unfold nanosOfDay
    omega
  have hincrements : (timeOf time).increments.toNat = nanosOfDay time / 100 :=
    UInt64.toNat_ofNat_of_lt' hlt
  have hscale : (timeOf time).scale.toNat = 7 := rfl
  unfold Time.BelowDay nanosPerDay
  rw [hincrements, hscale]
  omega

/-- What is built from a date and a time converts exactly if the date is not before
year 1, and is before 1900 or comes without the leap second at the end of a day. -/
theorem convertsExactly_dateTime2Of (hexact : Exact) (hranges : Ranges) (datetime : NaiveDateTime) :
    ∃ dt2, datetime.toSql = .ok (.dateTime2 (some dt2)) ∧
      (dt2.ConvertsExactly (dayNumber datetime.date) ↔
        0 ≤ dayNumber datetime.date ∧ (dayNumber datetime.date < daysYear1To1900 ∨
          nanosOfDay datetime.time < nanosPerDay)) := by
  obtain ⟨date, time⟩ := datetime
  have hscale : ¬ (timeOf time).scale > 9 := (by decide : ¬ (7 : UInt8) > 9)
  have hday := Date.ofDay_mod (dayNumber date)
  obtain ⟨hlow, hhigh⟩ : -2 ^ 27 ≤ dayNumber date ∧ dayNumber date < 2 ^ 27 := by
    have hdate := hranges.days date
    unfold InYears firstDay at hdate
    omega
  refine ⟨{ date := Date.ofDay (dayNumber date), time := timeOf time }, ?_, ?_⟩
  · rw [NaiveDateTime.toSql, hexact.dateTime2Of_eq]
    rfl
  rw [← timeOf_belowDay hexact hranges]
  dsimp only
  by_cases hneg : dayNumber date < 0
  -- The wrapped day of a date before year 1 is taken for one after 1900.
  · refine iff_of_false ?_ (fun hnonneg => absurd hnonneg.1 (Int.not_le.mpr hneg))
    intro hconverts
    unfold DateTime2.ConvertsExactly at hconverts
    rcases datetime2ToDatetime_result { date := Date.ofDay (dayNumber date), time := timeOf time } with
      ⟨hearly | hwide, -⟩ | ⟨-, -, hdone⟩
    · dsimp only [daysYear1To1900] at hearly
      omega
    · exact hscale hwide
    · rw [hdone] at hconverts
      have hfirst : (daysYear1To1900 : ℤ) ≤ dayNumber date := hconverts.1
      omega
  · have hnat : ((Date.ofDay (dayNumber date)).days.toNat : ℤ) = dayNumber date := by omega
    have hiff := DateTime2.convertsExactly_iff
      { date := Date.ofDay (dayNumber date), time := timeOf time }
    dsimp only at hiff
    rw [hnat] at hiff
    rw [hiff]
    constructor
    · rintro (hearly | hwide | ⟨-, htime⟩)
      · exact ⟨by omega, .inl (by omega)⟩
      · exact absurd hwide hscale
      · exact ⟨by omega, .inr htime⟩
    · rintro ⟨-, hearly | htime⟩
      · exact .inl (by omega)
      · exact .inr (.inr ⟨by omega, htime⟩)

end Chrono

theorem datetime2ToDatetime_exact_iff [ChronoCrate] (hexact : Chrono.Exact)
    (hranges : Chrono.Ranges) :
    (∀ dt2 : DateTime2, dt2.ConvertsExactly dt2.date.days.toNat ↔
      dt2.date.days.toNat < daysYear1To1900 ∨ dt2.time.scale > 9 ∨
        (dt2.date.days.toNat - daysYear1To1900 < 2 ^ 31 ∧ dt2.time.BelowDay)) ∧
    ∀ datetime : Chrono.NaiveDateTime, ∃ dt2, datetime.toSql = .ok (.dateTime2 (some dt2)) ∧
      (dt2.ConvertsExactly (Chrono.dayNumber datetime.date) ↔
        0 ≤ Chrono.dayNumber datetime.date ∧ (Chrono.dayNumber datetime.date < daysYear1To1900 ∨
          Chrono.nanosOfDay datetime.time < nanosPerDay)) :=
  ⟨DateTime2.convertsExactly_iff, Chrono.convertsExactly_dateTime2Of hexact hranges⟩

/-- Midnight of the first of January of 1970. -/
theorem datetime2ToDatetime_exact_iff_epoch :
    ∃ dt2, @Chrono.NaiveDateTime.toSql .exact
          (@Chrono.NaiveDateTime.mk .exact ⟨719162, by decide⟩ ⟨(0, 0), by decide⟩) =
        .ok (.dateTime2 (some dt2)) ∧
      (dt2.ConvertsExactly 719162 ↔
        (0 : ℤ) ≤ 719162 ∧ ((719162 : ℤ) < daysYear1To1900 ∨ 0 < nanosPerDay)) := by
  obtain ⟨dt2, hsent, hiff⟩ :=
    (@datetime2ToDatetime_exact_iff .exact Chrono.exact_isExact Chrono.exact_ranges).2
      (@Chrono.NaiveDateTime.mk .exact ⟨719162, by decide⟩ ⟨(0, 0), by decide⟩)
  refine ⟨dt2, hsent, ?_⟩
  rw [Chrono.exact_dayNumber] at hiff
  exact hiff

/-- The first of January of year 0 is sent as a day before 1900, and 24:00 as a time. -/
theorem datetime2ToDatetime_inexact :
    (∃ dt2, @Chrono.NaiveDateTime.toSql .exact
          (@Chrono.NaiveDateTime.mk .exact ⟨-366, by decide⟩ ⟨(0, 0), by decide⟩) =
        .ok (.dateTime2 (some dt2)) ∧
      datetime2ToDatetime dt2 = .done [] { days := -693961, secondsFragments := 0 } ∧
        ¬ dt2.ConvertsExactly (-366)) ∧
    datetime2ToDatetime { date := { days := 693595 }, time := { increments := 864000000000, scale := 7 } } =
        .done [] { days := 0, secondsFragments := 25920000 } ∧
      ¬ ∀ dt2 : DateTime2, dt2.ConvertsExactly dt2.date.days.toNat := by
  refine ⟨⟨_, rfl, rfl, ?_⟩, rfl, ?_⟩
  · intro hconverts
    have hfirst : (daysYear1To1900 : ℤ) ≤ -366 := hconverts.1
    exact absurd hfirst (by decide)
  · intro hconverts
    have htime := (hconverts
      { date := { days := 693595 }, time := { increments := 864000000000, scale := 7 } }).2.1
    exact absurd htime (by unfold Time.BelowDay; decide)

end Tiberius
