import Tiberius.Instants
import Tiberius.WireFields

/-!
Temporal values as they arrive against the values that `chrono` and `time` make of
them. The fields on the wire are wider than what they count: the increments of a
time reach beyond 24 hours, the days of a date beyond the dates of a crate. A
conversion that leaves a range unchecked leaves it to the crate, whose times start
over at midnight.
-/

namespace Tiberius

open Calendar

namespace ColumnData

/-- The day that a value stands for, counted from the first of January of year 1. -/
def day : ColumnData → ℤ
  | .smallDateTime (some value) => firstDay 1900 + value.days.toNat
  | .dateTime (some value) => firstDay 1900 + value.days.toInt
  | .date (some value) => value.days.toNat
  | .dateTime2 (some value) => value.date.days.toNat
  | .dateTimeOffset (some value) => value.datetime2.date.days.toNat
  | _ => 0

/-- The nanoseconds since midnight that a value stands for, a `datetime` cut off to
whole ones. -/
def nanosOfDay : ColumnData → ℕ
  | .smallDateTime (some value) => value.secondsFragments.toNat * 60 * 10 ^ 9
  | .dateTime (some value) => value.secondsFragments.toNat * 10 ^ 9 / 300
  | .time (some value) => value.nanos
  | .dateTime2 (some value) => value.time.nanos
  | .dateTimeOffset (some value) => value.datetime2.time.nanos
  | _ => 0

end ColumnData

section

variable {α β : Type}

/-- A conversion refuses a value, or gives what it stands for; a NULL is given as none. -/
def ReadsExactly (data : ColumnData) (result : Except Fault (Option α)) (exact : α → Prop) : Prop :=
  match result with
  | .ok none => data.IsNull
  | .ok (some value) => exact value
  | .error fault => ∃ error, fault = .error error

theorem readsExactly_ok {data : ColumnData} {convert : β → Except Fault α} {received : β}
    {exact : α → Prop} (value : α) (hconvert : convert received = .ok value) :
    ReadsExactly data (nullable convert (some received)) exact ↔ exact value := by
  change ReadsExactly data ((convert received).map some) exact ↔ _
  rw [hconvert]
  exact Iff.rfl

theorem readsExactly_error {data : ColumnData} {convert : β → Except Fault α} {received : β}
    {exact : α → Prop} (error : Error) (hconvert : convert received = .error (.error error)) :
    ReadsExactly data (nullable convert (some received)) exact := by
  change ReadsExactly data ((convert received).map some) exact
  rw [hconvert]
  exact ⟨error, rfl⟩

theorem not_readsExactly_panic {data : ColumnData} {convert : β → Except Fault α} {received : β}
    {exact : α → Prop} (hconvert : convert received = .error .panic) :
    ¬ ReadsExactly data (nullable convert (some received)) exact := by
  change ¬ ReadsExactly data ((convert received).map some) exact
  rw [hconvert]
  rintro ⟨error, herror⟩
  cases herror

theorem mod_nanosPerDay_iff (nanos : ℕ) : nanos % nanosPerDay = nanos ↔ nanos < nanosPerDay :=
  Nat.mod_eq_iff_lt (by decide)

end

namespace Chrono

open ChronoCrate

theorem nanosFromIncrements_of_fits {time : Time} (htime : time.Fits) :
    nanosFromIncrements time.increments time.scale = time.nanos := by
  unfold nanosFromIncrements
  rw [Time.saturatingMul_eq htime.nanos_lt]
  exact Nat.min_eq_left (Nat.le_sub_one_of_lt htime.nanos_lt)

/-- An offset is checked against the range that SQL Server has. -/
theorem validateOffsetMinutes_cases (minutes : Int16) :
    ((-840 ≤ minutes.toInt ∧ minutes.toInt ≤ 840) ∧
      validateOffsetMinutes minutes = .ok minutes.toInt) ∨
      ¬ (-840 ≤ minutes.toInt ∧ minutes.toInt ≤ 840) ∧
        ∃ error, validateOffsetMinutes minutes = .error (.error error) := by
  unfold validateOffsetMinutes
  split_ifs with hrange
  · exact .inl ⟨hrange, rfl⟩
  · exact .inr ⟨hrange, _, rfl⟩

section

variable [ChronoCrate]

/-- The days since a year are a date, or refused. -/
theorem fromDays_cases (hexact : Exact) {days year : ℤ} (hlow : 1 ≤ year) (hhigh : year ≤ 9999) :
    (∃ date, fromDays days year = .ok date ∧ dayNumber date = firstDay year + days) ∨
      (∀ date, dayNumber date ≠ firstDay year + days) ∧
        ∃ error, fromDays days year = .error (.error error) := by
  obtain ⟨base, hbase, hfirst⟩ := hexact.firstOfYear year hlow hhigh
  have hcases := add_days_cases hexact.addDays base days
  rw [hfirst] at hcases
  rcases hcases with ⟨date, -, hday⟩ | ⟨hmissing, hnone⟩
  · exact .inl ⟨date, hexact.fromDays_eq hlow hhigh hday, hday⟩
  · refine .inr ⟨hmissing, ?_⟩
    unfold fromDays
    rw [hbase]
    change ∃ error, orProtocol _ (checkedAddDays base days) = _
    rw [hnone]
    exact ⟨_, rfl⟩

theorem fromMins_cases (hranges : Ranges) (mins : ℕ) :
    (∃ time, fromMins mins = .ok time ∧ nanosOfDay time = mins * 10 ^ 9) ∨
      ∃ error, fromMins mins = .error (.error error) := by
  unfold fromMins
  by_cases hmins : mins < 86400
  · obtain ⟨time, hsome, hnanos⟩ := hranges.secondsOfDay mins hmins
    rw [hsome]
    exact .inl ⟨time, rfl, hnanos⟩
  · rw [hranges.secondsBeyond mins (Nat.le_of_not_lt hmins)]
    exact .inr ⟨_, rfl⟩

/-- The crate has all the dates of three bytes, and a day before and behind them. -/
theorem exists_date (hranges : Ranges) {day : ℤ} (hlow : -1 ≤ day) (hhigh : day ≤ 2 ^ 24) :
    ∃ date, dayNumber date = day := by
  apply hranges.dates
  unfold InYears firstDay
  omega

/-- A `datetime2` is read as its day, with a time that starts over at midnight. -/
theorem fromDateTime2_mod (hexact : Exact) (hranges : Ranges) {dt : DateTime2}
    (htime : dt.time.Fits) (hdate : dt.date.days.toNat < 2 ^ 24) :
    ∃ naive, fromDateTime2 dt = .ok naive ∧ Regular naive.time ∧
      dayNumber naive.date = dt.date.days.toNat ∧
        nanosOfDay naive.time = dt.time.nanos % nanosPerDay := by
  obtain ⟨date, hday⟩ := @exists_date _ hranges dt.date.days.toNat (by omega) (by omega)
  obtain ⟨time, hfrom, hregular, hnanos⟩ := hexact.fromNanos_mod dt.time.nanos
  refine ⟨{ date := date, time := time }, ?_, hregular, hday, hnanos⟩
  have hdays : fromDays dt.date.days.toNat 1 = .ok date :=
    hexact.fromDays_eq (by decide) (by decide) (by rw [hday]; exact (Int.zero_add _).symm)
  unfold fromDateTime2
  rw [hdays, nanosFromIncrements_of_fits htime, hfrom]
  rfl

/-- The shift by an offset leads to a date of the crate. -/
theorem exists_shifted (hexact : Exact) (hranges : Ranges) {naive : NaiveDateTime} {day : ℕ}
    {minutes : ℤ} (hregular : Regular naive.time) (hday : dayNumber naive.date = day)
    (hdate : day < 2 ^ 24) (hlow : -840 ≤ minutes) (hhigh : minutes ≤ 840) :
    ∃ date time, checkedSubMinutes naive.date naive.time minutes = some (date, time) ∧
      nanosOfDay time < nanosPerDay ∧ instant (dayNumber date) (nanosOfDay time) =
        instant (dayNumber naive.date) (nanosOfDay naive.time) - minutes * 60 * 10 ^ 9 := by
  obtain ⟨day', nanos, hnanos, hmoment⟩ := exists_instant
    (instant (dayNumber naive.date) (nanosOfDay naive.time) - minutes * 60 * 10 ^ 9)
  have hnear := day_of_shift (hexact.regular_lt hregular) hnanos
    (by unfold nanosPerDay; omega) (by unfold nanosPerDay; omega) hmoment
  obtain ⟨date, hd⟩ := @exists_date _ hranges day' (by omega) (by omega)
  obtain ⟨time, -, htime, ht⟩ := hexact.fromNanos_ok hnanos
  have hinstant : instant (dayNumber date) (nanosOfDay time) =
      instant (dayNumber naive.date) (nanosOfDay naive.time) - minutes * 60 * 10 ^ 9 := by
    rw [hd, ht, hmoment]
  exact ⟨date, time, (hexact.subMinutes _ _ _ _ _ hregular).mpr ⟨htime, hinstant⟩,
    ht ▸ hnanos, hinstant⟩

/-- A date and a time that are those of a value. -/
def NaiveDateTime.IsOf (datetime : NaiveDateTime) (data : ColumnData) : Prop :=
  dayNumber datetime.date = data.day ∧ nanosOfDay datetime.time = data.nanosOfDay

/-- The values that are refused or read exactly, for each conversion that does not take
all of them so. -/
def NaiveTime.Receives : ColumnData → Prop
  | .time (some value) => value.nanos < nanosPerDay
  | _ => True

def NaiveDateTime.Receives : ColumnData → Prop
  | .dateTime2 (some value) => value.time.nanos < nanosPerDay
  | .dateTime (some value) => (∃ date, dayNumber date = firstDay 1900 + value.days.toInt) →
      value.secondsFragments.toNat < 25920000
  | _ => True

def DateTimeUtc.Receives : ColumnData → Prop
  | .dateTime2 (some value) => value.time.nanos < nanosPerDay
  | .dateTimeOffset (some value) => -840 ≤ value.offset.toInt ∧ value.offset.toInt ≤ 840 →
      value.datetime2.time.nanos < nanosPerDay ∧ value.offset = 0
  | _ => True

def DateTimeFixedOffset.Receives : ColumnData → Prop
  | .dateTimeOffset (some value) => -840 ≤ value.offset.toInt ∧ value.offset.toInt ≤ 840 →
      value.datetime2.time.nanos < nanosPerDay
  | _ => True

variable [StdLib] {data : ColumnData}

theorem naiveTime_readsExactly (hexact : Exact) (hdata : data.InFields) :
    ReadsExactly data (NaiveTime.fromSql data) (fun time => nanosOfDay time = data.nanosOfDay) ↔
      NaiveTime.Receives data := by
  cases data
  case time value =>
    cases value with
    | none => exact iff_of_true rfl trivial
    | some time =>
      obtain ⟨back, hfrom, -, hnanos⟩ := hexact.fromNanos_mod time.nanos
      have hconvert : fromNanos (nanosFromIncrements time.increments time.scale) = .ok back := by
        rw [nanosFromIncrements_of_fits hdata, hfrom]
      refine (readsExactly_ok back hconvert).trans ?_
      rw [hnanos]
      exact mod_nanosPerDay_iff _
  all_goals exact iff_of_true ⟨_, rfl⟩ trivial

theorem naiveDate_readsExactly (hexact : Exact) :
    ReadsExactly data (NaiveDate.fromSql data) (fun date => dayNumber date = data.day) := by
  cases data
  case date value =>
    cases value with
    | none => exact rfl
    | some date =>
      rcases @fromDays_cases _ hexact date.days.toNat 1 (by decide) (by decide) with
        ⟨back, hfrom, hday⟩ | ⟨-, error, hfrom⟩
      · exact (readsExactly_ok back hfrom).mpr (hday.trans (Int.zero_add _))
      · exact readsExactly_error error hfrom
  all_goals exact ⟨_, rfl⟩

theorem naiveDateTime_readsExactly (hexact : Exact) (hranges : Ranges) (hdata : data.InFields) :
    ReadsExactly data (NaiveDateTime.fromSql data) (fun datetime => datetime.IsOf data) ↔
      NaiveDateTime.Receives data := by
  cases data
  case smallDateTime value =>
    refine iff_of_true ?_ trivial
    cases value with
    | none => exact rfl
    | some dt =>
      rcases @fromDays_cases _ hexact dt.days.toNat 1900 (by decide) (by decide) with
        ⟨date, hdays, hday⟩ | ⟨-, error, hdays⟩
      · rcases fromMins_cases hranges (dt.secondsFragments.toNat * 60) with
          ⟨time, hmins, hnanos⟩ | ⟨error, hmins⟩
        · refine (readsExactly_ok { date := date, time := time } ?_).mpr ?_
          · rw [hdays, hmins]
            rfl
          · unfold NaiveDateTime.IsOf ColumnData.day ColumnData.nanosOfDay
            exact ⟨hday, hnanos⟩
        · refine readsExactly_error error ?_
          rw [hdays, hmins]
          rfl
      · refine readsExactly_error error ?_
        rw [hdays]
        rfl
  case dateTime value =>
    cases value with
    | none => exact iff_of_true rfl trivial
    | some dt =>
      rcases @fromDays_cases _ hexact dt.days.toInt 1900 (by decide) (by decide) with
        ⟨date, hdays, hday⟩ | ⟨hmissing, error, hdays⟩
      · obtain ⟨time, hfrom, -, hnanos⟩ :=
          hexact.fromNanos_mod (dt.secondsFragments.toNat * 10 ^ 9 / 300)
        refine (readsExactly_ok { date := date, time := time } ?_).trans ?_
        · rw [hdays, fromSecFragments, hfrom]
          rfl
        · unfold NaiveDateTime.IsOf NaiveDateTime.Receives ColumnData.day ColumnData.nanosOfDay
          rw [hnanos, and_iff_right hday, mod_nanosPerDay_iff]
          have hsome : ∃ date, dayNumber date = firstDay 1900 + dt.days.toInt := ⟨date, hday⟩
          unfold nanosPerDay
          constructor
          · intro hlt _
            omega
          · intro hall
            have hlt := hall hsome
            omega
      · refine iff_of_true (readsExactly_error error ?_) ?_
        · rw [hdays]
          rfl
        · rintro ⟨date, hday⟩
          exact absurd hday (hmissing date)
  case dateTime2 value =>
    cases value with
    | none => exact iff_of_true rfl trivial
    | some dt =>
      obtain ⟨naive, hfrom, -, hday, hnanos⟩ := fromDateTime2_mod hexact hranges hdata.1 hdata.2
      refine (readsExactly_ok naive hfrom).trans ?_
      unfold NaiveDateTime.IsOf NaiveDateTime.Receives ColumnData.day ColumnData.nanosOfDay
      rw [hnanos, and_iff_right hday]
      exact mod_nanosPerDay_iff _
  all_goals exact iff_of_true ⟨_, rfl⟩ trivial

theorem dateTimeFixedOffset_readsExactly (hexact : Exact) (hranges : Ranges)
    (hdata : data.InFields) :
    ReadsExactly data (DateTimeFixedOffset.fromSql data) (fun datetime =>
        datetime.naiveUtc.IsOf data ∧ ∀ dto, data = .dateTimeOffset (some dto) →
          localMinusUtc datetime.timezone = dto.offset.toInt * 60) ↔
      DateTimeFixedOffset.Receives data := by
  cases data
  case dateTimeOffset value =>
    cases value with
    | none => exact iff_of_true rfl trivial
    | some dto =>
      obtain ⟨naive, hfrom, -, hday, hnanos⟩ := fromDateTime2_mod hexact hranges hdata.1 hdata.2
      rcases validateOffsetMinutes_cases dto.offset with ⟨hrange, hminutes⟩ | ⟨hrange, error, hminutes⟩
      · obtain ⟨zone, hzone, hseconds⟩ :=
          hexact.east (dto.offset.toInt * 60) (by omega) (by omega)
        refine (readsExactly_ok { naiveUtc := naive, timezone := zone } ?_).trans ?_
        · rw [hfrom, hminutes]
          change (orProtocol _ (eastOpt (dto.offset.toInt * 60)) >>= _) = _
          rw [hzone]
          rfl
        · unfold NaiveDateTime.IsOf DateTimeFixedOffset.Receives ColumnData.day
            ColumnData.nanosOfDay
          rw [hnanos, and_iff_right hday, mod_nanosPerDay_iff]
          constructor
          · rintro ⟨hlt, -⟩ -
            exact hlt
          · intro hall
            refine ⟨hall hrange, ?_⟩
            rintro _ ⟨⟩
            exact hseconds
      · refine iff_of_true (readsExactly_error error ?_) fun hinside => absurd hinside hrange
        rw [hfrom, hminutes]
        rfl
  all_goals exact iff_of_true ⟨_, rfl⟩ trivial

theorem dateTimeUtc_readsExactly (hexact : Exact) (hranges : Ranges) (hdata : data.InFields) :
    ReadsExactly data (DateTimeUtc.fromSql data) (fun datetime => datetime.naiveUtc.IsOf data) ↔
      DateTimeUtc.Receives data := by
  cases data
  case dateTime2 value =>
    cases value with
    | none => exact iff_of_true rfl trivial
    | some dt =>
      obtain ⟨naive, hfrom, -, hday, hnanos⟩ := fromDateTime2_mod hexact hranges hdata.1 hdata.2
      refine (readsExactly_ok { naiveUtc := naive } ?_).trans ?_
      · rw [hfrom]
        rfl
      · unfold NaiveDateTime.IsOf DateTimeUtc.Receives ColumnData.day ColumnData.nanosOfDay
        rw [hnanos, and_iff_right hday]
        exact mod_nanosPerDay_iff _
  case dateTimeOffset value =>
    cases value with
    | none => exact iff_of_true rfl trivial
    | some dto =>
      obtain ⟨naive, hfrom, hregular, hday, hnanos⟩ :=
        fromDateTime2_mod hexact hranges hdata.1 hdata.2
      rcases validateOffsetMinutes_cases dto.offset with ⟨hrange, hminutes⟩ | ⟨hrange, error, hminutes⟩
      · obtain ⟨date, time, hshifted, hlt, hinstant⟩ :=
          exists_shifted hexact hranges hregular hday hdata.2 hrange.1 hrange.2
        refine (readsExactly_ok { naiveUtc := { date := date, time := time } } ?_).trans ?_
        · rw [hfrom, hminutes]
          change (orProtocol _ (checkedSubMinutes naive.date naive.time dto.offset.toInt) >>= _) = _
          rw [hshifted]
          rfl
        · dsimp only [NaiveDateTime.IsOf, DateTimeUtc.Receives, ColumnData.day,
            ColumnData.nanosOfDay]
          have hzero : dto.offset = 0 ↔ dto.offset.toInt = 0 := Int16.toInt_inj.symm
          rw [imp_iff_right hrange, hzero]
          rw [hday, hnanos] at hinstant
          unfold instant nanosPerDay at *
          omega
      · refine iff_of_true (readsExactly_error error ?_) fun hinside => absurd hinside hrange
        rw [hfrom, hminutes]
        rfl
  all_goals exact iff_of_true ⟨_, rfl⟩ trivial

end

end Chrono

namespace TimeCrate

theorem nanosFromIncrements_of_fits {time : Tiberius.Time} (htime : time.Fits) :
    nanosFromIncrements time.increments time.scale = time.nanos :=
  Time.saturatingMul_eq htime.nanos_lt

variable [TimeCrate]

/-- The days since a year are a date, or refused. -/
theorem fromDays_cases (hexact : Exact) {days year : ℤ} (hlow : 1 ≤ year) (hhigh : year ≤ 9999) :
    (∃ date, fromDays days year = .ok date ∧ dayNumber date = firstDay year + days) ∨
      (∀ date, dayNumber date ≠ firstDay year + days) ∧
        ∃ error, fromDays days year = .error (.error error) := by
  obtain ⟨base, hbase, hfirst⟩ := hexact.firstOfYear year hlow hhigh
  have hcases := add_days_cases hexact.addDays base days
  rw [hfirst] at hcases
  rcases hcases with ⟨date, -, hday⟩ | ⟨hmissing, hnone⟩
  · exact .inl ⟨date, hexact.fromDays_eq hlow hhigh hday, hday⟩
  · refine .inr ⟨hmissing, ?_⟩
    unfold fromDays
    rw [hbase]
    change ∃ error, orProtocol _ (checkedAddDays base days) = _
    rw [hnone]
    exact ⟨_, rfl⟩

/-- The nanoseconds since midnight start over after a day. -/
theorem fromNanos_mod (hexact : Exact) (nanos : ℕ) :
    ∃ time, fromNanos nanos = .ok time ∧ nanosOfDay time = nanos % nanosPerDay := by
  obtain ⟨midnight, hmidnight, hzero, -⟩ := hexact.midnight
  refine ⟨addNanos midnight nanos, ?_, ?_⟩
  · unfold fromNanos
    rw [hmidnight]
    rfl
  · rw [hexact.addition, hzero, Nat.zero_add]

theorem fromSecs_cases (hexact : Exact) (secs : ℕ) :
    (∃ time, fromSecs secs = .ok time ∧ nanosOfDay time = secs * 10 ^ 9) ∨
      ∃ error, fromSecs secs = .error (.error error) := by
  unfold fromSecs
  split_ifs with hsecs
  · exact .inr ⟨_, rfl⟩
  · obtain ⟨time, hfrom, hnanos⟩ := fromNanos_mod hexact (secs * 10 ^ 9)
    refine .inl ⟨time, hfrom, hnanos.trans (Nat.mod_eq_of_lt ?_)⟩
    unfold nanosPerDay
    omega

def PrimitiveDateTime.IsOf (datetime : PrimitiveDateTime) (data : ColumnData) : Prop :=
  dayNumber datetime.date = data.day ∧ nanosOfDay datetime.time = data.nanosOfDay

def Time.Receives : ColumnData → Prop
  | .time (some value) => value.nanos < nanosPerDay
  | _ => True

def PrimitiveDateTime.Receives : ColumnData → Prop
  | .dateTime2 (some value) => (∃ date, dayNumber date = value.date.days.toNat) →
      value.time.nanos < nanosPerDay
  | .dateTime (some value) => (∃ date, dayNumber date = firstDay 1900 + value.days.toInt) →
      value.secondsFragments.toNat < 25920000
  | _ => True

/-- The date on the wire and the local date have to be dates of the crate. -/
def OffsetDateTime.Receives : ColumnData → Prop
  | .dateTimeOffset (some value) =>
    (∃ date, dayNumber date = value.datetime2.date.days.toNat) →
      -840 ≤ value.offset.toInt ∧ value.offset.toInt ≤ 840 →
        value.datetime2.time.nanos < nanosPerDay ∧
          ∃ date, dayNumber date = (Calendar.instant value.datetime2.date.days.toNat
            value.datetime2.time.nanos + value.offset.toInt * 60 * 10 ^ 9) / nanosPerDay
  | _ => True

/-- The value in UTC is moved to the offset, which needs a date there. -/
theorem readsExactly_toOffset (hexact : Exact) {dto : DateTimeOffset} {d : Date} {t : Time}
    {zone : UtcOffset} (hday : dayNumber d = dto.datetime2.date.days.toNat)
    (hnanos : nanosOfDay t = dto.datetime2.time.nanos % nanosPerDay)
    (hzone : wholeSeconds zone = dto.offset.toInt * 60) :
    (∃ other, toOffset (assumeUtc d t) zone = some other ∧
        OffsetDateTime.instant other = dto.instant) ↔
      dto.datetime2.time.nanos < nanosPerDay ∧ ∃ date, dayNumber date =
        (dto.instant + dto.offset.toInt * 60 * 10 ^ 9) / nanosPerDay := by
  obtain ⟨hdate, htime, hutc⟩ := hexact.assumed d t
  have hassumed : OffsetDateTime.instant (assumeUtc d t) =
      Calendar.instant dto.datetime2.date.days.toNat
        (dto.datetime2.time.nanos % nanosPerDay : ℕ) := by
    rw [OffsetDateTime.instant, hdate, htime, hutc, hday, hnanos, hexact.utcSeconds]
    omega
  have hsame : OffsetDateTime.instant (assumeUtc d t) = dto.instant ↔
      dto.datetime2.time.nanos < nanosPerDay := by
    rw [hassumed]
    unfold DateTimeOffset.instant Calendar.instant nanosPerDay
    omega
  have hexists := toOffset_iff hexact (assumeUtc d t) zone
  rw [hzone] at hexists
  constructor
  · rintro ⟨other, hmoved, hinstant⟩
    have hkept := ((hexact.change _ _ _).mp hmoved).2.symm.trans hinstant
    refine ⟨hsame.mp hkept, ?_⟩
    rw [← hkept]
    exact hexists.mp ⟨other, hmoved⟩
  · rintro ⟨hlt, hlocal⟩
    have hkept := hsame.mpr hlt
    rw [← hkept] at hlocal
    obtain ⟨other, hmoved⟩ := hexists.mpr hlocal
    exact ⟨other, hmoved, (((hexact.change _ _ _).mp hmoved).2).trans hkept⟩

variable [StdLib] {data : ColumnData}

theorem time_readsExactly (hexact : Exact) (hdata : data.InFields) :
    ReadsExactly data (Time.fromSql data) (fun time => nanosOfDay time = data.nanosOfDay) ↔
      Time.Receives data := by
  cases data
  case time value =>
    cases value with
    | none => exact iff_of_true rfl trivial
    | some time =>
      obtain ⟨back, hfrom, hnanos⟩ := fromNanos_mod hexact time.nanos
      have hconvert : fromNanos (nanosFromIncrements time.increments time.scale) = .ok back := by
        rw [nanosFromIncrements_of_fits hdata, hfrom]
      refine (readsExactly_ok back hconvert).trans ?_
      rw [hnanos]
      exact mod_nanosPerDay_iff _
  all_goals exact iff_of_true ⟨_, rfl⟩ trivial

theorem date_readsExactly (hexact : Exact) :
    ReadsExactly data (Date.fromSql data) (fun date => dayNumber date = data.day) := by
  cases data
  case date value =>
    cases value with
    | none => exact rfl
    | some date =>
      rcases @fromDays_cases _ hexact date.days.toNat 1 (by decide) (by decide) with
        ⟨back, hfrom, hday⟩ | ⟨-, error, hfrom⟩
      · exact (readsExactly_ok back hfrom).mpr (hday.trans (Int.zero_add _))
      · exact readsExactly_error error hfrom
  all_goals exact ⟨_, rfl⟩

theorem primitiveDateTime_readsExactly (hexact : Exact) (hdata : data.InFields) :
    ReadsExactly data (PrimitiveDateTime.fromSql data) (fun datetime => datetime.IsOf data) ↔
      PrimitiveDateTime.Receives data := by
  cases data
  case smallDateTime value =>
    refine iff_of_true ?_ trivial
    cases value with
    | none => exact rfl
    | some dt =>
      rcases @fromDays_cases _ hexact dt.days.toNat 1900 (by decide) (by decide) with
        ⟨date, hdays, hday⟩ | ⟨-, error, hdays⟩
      · rcases fromSecs_cases hexact (dt.secondsFragments.toNat * 60) with
          ⟨time, hsecs, hnanos⟩ | ⟨error, hsecs⟩
        · refine (readsExactly_ok { date := date, time := time } ?_).mpr ?_
          · rw [hdays, hsecs]
            rfl
          · unfold PrimitiveDateTime.IsOf ColumnData.day ColumnData.nanosOfDay
            exact ⟨hday, hnanos⟩
        · refine readsExactly_error error ?_
          rw [hdays, hsecs]
          rfl
      · refine readsExactly_error error ?_
        rw [hdays]
        rfl
  case dateTime value =>
    cases value with
    | none => exact iff_of_true rfl trivial
    | some dt =>
      rcases @fromDays_cases _ hexact dt.days.toInt 1900 (by decide) (by decide) with
        ⟨date, hdays, hday⟩ | ⟨hmissing, error, hdays⟩
      · obtain ⟨time, hfrom, hnanos⟩ :=
          fromNanos_mod hexact (dt.secondsFragments.toNat * 10 ^ 9 / 300)
        refine (readsExactly_ok { date := date, time := time } ?_).trans ?_
        · rw [hdays, fromSecFragments, hfrom]
          rfl
        · have hsome : ∃ date, dayNumber date = firstDay 1900 + dt.days.toInt := ⟨date, hday⟩
          dsimp only [PrimitiveDateTime.IsOf, PrimitiveDateTime.Receives, ColumnData.day,
            ColumnData.nanosOfDay]
          rw [hnanos, and_iff_right hday, mod_nanosPerDay_iff, imp_iff_right hsome]
          unfold nanosPerDay
          omega
      · refine iff_of_true (readsExactly_error error ?_) ?_
        · rw [hdays]
          rfl
        · rintro ⟨date, hday⟩
          exact absurd hday (hmissing date)
  case dateTime2 value =>
    cases value with
    | none => exact iff_of_true rfl trivial
    | some dt =>
      rcases @fromDays_cases _ hexact dt.date.days.toNat 1 (by decide) (by decide) with
        ⟨date, hdays, hday⟩ | ⟨hmissing, error, hdays⟩
      · obtain ⟨time, hfrom, hnanos⟩ := fromNanos_mod hexact dt.time.nanos
        refine (readsExactly_ok { date := date, time := time } ?_).trans ?_
        · rw [hdays, nanosFromIncrements_of_fits hdata.1, hfrom]
          rfl
        · have hnumber : dayNumber date = dt.date.days.toNat := hday.trans (Int.zero_add _)
          have hsome : ∃ date, dayNumber date = dt.date.days.toNat := ⟨date, hnumber⟩
          dsimp only [PrimitiveDateTime.IsOf, PrimitiveDateTime.Receives, ColumnData.day,
            ColumnData.nanosOfDay]
          rw [hnanos, and_iff_right hnumber, mod_nanosPerDay_iff, imp_iff_right hsome]
      · refine iff_of_true (readsExactly_error error ?_) ?_
        · rw [hdays]
          rfl
        · rintro ⟨date, hday⟩
          exact absurd (hday.trans (Int.zero_add _).symm) (hmissing date)
  all_goals exact iff_of_true ⟨_, rfl⟩ trivial

theorem offsetDateTime_readsExactly (hexact : Exact) (hdata : data.InFields) :
    ReadsExactly data (OffsetDateTime.fromSql data) (fun datetime =>
        ∀ dto, data = .dateTimeOffset (some dto) →
          OffsetDateTime.instant datetime = dto.instant ∧
            wholeSeconds (offset datetime) = dto.offset.toInt * 60) ↔
      OffsetDateTime.Receives data := by
  cases data
  case dateTimeOffset value =>
    cases value with
    | none => exact iff_of_true rfl trivial
    | some dto =>
      rcases @fromDays_cases _ hexact dto.datetime2.date.days.toNat 1 (by decide) (by decide) with
        ⟨d, hdays, hday⟩ | ⟨hmissing, error, hdays⟩
      · have hnumber : dayNumber d = dto.datetime2.date.days.toNat := hday.trans (Int.zero_add _)
        obtain ⟨t, hfrom, hnanos⟩ := fromNanos_mod hexact dto.datetime2.time.nanos
        by_cases hrange : -840 ≤ dto.offset.toInt ∧ dto.offset.toInt ≤ 840
        · obtain ⟨zone, hsome, hzone⟩ :=
            hexact.fromWholeSeconds (dto.offset.toInt * 60) (by omega) (by omega)
          have hmoves := readsExactly_toOffset hexact hnumber hnanos hzone
          have hoffset : offsetFromMinutes dto.offset = .ok zone := by
            rw [offsetFromMinutes, if_pos hrange, hsome]
            rfl
          have hreceives : OffsetDateTime.Receives (.dateTimeOffset (some dto)) ↔
              ∃ other, toOffset (assumeUtc d t) zone = some other ∧
                OffsetDateTime.instant other = dto.instant := by
            rw [hmoves]
            exact ⟨fun hall => hall ⟨d, hnumber⟩ hrange, fun hboth _ _ => hboth⟩
          rw [hreceives]
          cases hmoved : toOffset (assumeUtc d t) zone with
          | none =>
            refine iff_of_false (not_readsExactly_panic ?_) ?_
            · rw [hdays, nanosFromIncrements_of_fits hdata.1, hfrom, hoffset]
              change unwrap (toOffset (assumeUtc d t) zone) = _
              rw [hmoved]
              rfl
            · rintro ⟨_, ⟨⟩, -⟩
          | some other =>
            refine (readsExactly_ok other ?_).trans ?_
            · rw [hdays, nanosFromIncrements_of_fits hdata.1, hfrom, hoffset]
              change unwrap (toOffset (assumeUtc d t) zone) = _
              rw [hmoved]
              rfl
            · constructor
              · intro hexactly
                exact ⟨other, rfl, (hexactly dto rfl).1⟩
              · rintro ⟨_, ⟨⟩, hinstant⟩ _ ⟨⟩
                have hzoned := ((hexact.change _ _ _).mp hmoved).1
                exact ⟨hinstant, by rw [hzoned, hzone]⟩
        · refine iff_of_true (readsExactly_error (.protocol ("datetimeoffset offset " ++
            toString dto.offset ++ " minutes is outside the valid -14:00..=+14:00 range")) ?_)
            fun _ hinside => absurd hinside hrange
          rw [hdays, nanosFromIncrements_of_fits hdata.1, hfrom, offsetFromMinutes, if_neg hrange]
          rfl
      · refine iff_of_true (readsExactly_error error ?_) ?_
        · rw [hdays]
          rfl
        · rintro ⟨date, hday⟩
          exact absurd (hday.trans (Int.zero_add _).symm) (hmissing date)
  all_goals exact iff_of_true ⟨_, rfl⟩ trivial

end TimeCrate

section

variable [StdLib] [EncodingRs] [ChronoCrate] [TimeCrate]

/-- Of the values that the decoders can produce, each conversion reads exactly, or
refuses, those that it receives, and of dates alone that is all of them. -/
theorem receivedTimes_exact_iff (hchrono : Chrono.Exact) (hranges : Chrono.Ranges)
    (htime : TimeCrate.Exact) {data : ColumnData} (hdata : data.FromWire) :
    ReadsExactly data (Chrono.NaiveDate.fromSql data) (fun date =>
        Chrono.dayNumber date = data.day) ∧
      ReadsExactly data (TimeCrate.Date.fromSql data) (fun date =>
        TimeCrate.dayNumber date = data.day) ∧
      (ReadsExactly data (Chrono.NaiveTime.fromSql data) (fun time =>
        Chrono.nanosOfDay time = data.nanosOfDay) ↔ Chrono.NaiveTime.Receives data) ∧
      (ReadsExactly data (TimeCrate.Time.fromSql data) (fun time =>
        TimeCrate.nanosOfDay time = data.nanosOfDay) ↔ TimeCrate.Time.Receives data) ∧
      (ReadsExactly data (Chrono.NaiveDateTime.fromSql data) (fun datetime =>
        datetime.IsOf data) ↔ Chrono.NaiveDateTime.Receives data) ∧
      (ReadsExactly data (TimeCrate.PrimitiveDateTime.fromSql data) (fun datetime =>
        datetime.IsOf data) ↔ TimeCrate.PrimitiveDateTime.Receives data) ∧
      (ReadsExactly data (Chrono.DateTimeUtc.fromSql data) (fun datetime =>
        datetime.naiveUtc.IsOf data) ↔ Chrono.DateTimeUtc.Receives data) ∧
      (ReadsExactly data (Chrono.DateTimeFixedOffset.fromSql data) (fun datetime =>
        datetime.naiveUtc.IsOf data ∧ ∀ dto, data = .dateTimeOffset (some dto) →
          ChronoCrate.localMinusUtc datetime.timezone = dto.offset.toInt * 60) ↔
        Chrono.DateTimeFixedOffset.Receives data) ∧
      (ReadsExactly data (TimeCrate.OffsetDateTime.fromSql data) (fun datetime =>
        ∀ dto, data = .dateTimeOffset (some dto) →
          TimeCrate.OffsetDateTime.instant datetime = dto.instant ∧
            TimeCrate.wholeSeconds (TimeCrate.offset datetime) = dto.offset.toInt * 60) ↔
        TimeCrate.OffsetDateTime.Receives data) := by
  have hfields := hdata.inFields
  exact ⟨Chrono.naiveDate_readsExactly hchrono, TimeCrate.date_readsExactly htime,
    Chrono.naiveTime_readsExactly hchrono hfields, TimeCrate.time_readsExactly htime hfields,
    Chrono.naiveDateTime_readsExactly hchrono hranges hfields,
    TimeCrate.primitiveDateTime_readsExactly htime hfields,
    Chrono.dateTimeUtc_readsExactly hchrono hranges hfields,
    Chrono.dateTimeFixedOffset_readsExactly hchrono hranges hfields,
    TimeCrate.offsetDateTime_readsExactly htime hfields⟩

end

/-- A tenth of a microsecond behind noon. -/
theorem receivedTimes_exact_iff_noon :
    ReadsExactly (.time (some { increments := 432000000001, scale := 7 }))
        (@Chrono.NaiveTime.fromSql .exact .exact
          (.time (some { increments := 432000000001, scale := 7 })))
        (fun time => @Chrono.nanosOfDay .exact time = 43200000000100) ∧
      ReadsExactly (.time (some { increments := 432000000001, scale := 7 }))
        (@TimeCrate.Time.fromSql .exact .exact
          (.time (some { increments := 432000000001, scale := 7 })))
        (fun time => @TimeCrate.nanosOfDay .exact time = 43200000000100) := by
  have hwire : @ColumnData.FromWire .ascii
      (.time (some { increments := 432000000001, scale := 7 })) :=
    ⟨Context.new, .varLenSized { type := .timen, len := 7, collation := none },
      [5, 0x01, 0xE0, 0x34, 0x95, 0x64], rfl⟩
  obtain ⟨-, -, hnaive, htime, -⟩ := @receivedTimes_exact_iff .exact .ascii .exact .exact
    Chrono.exact_isExact Chrono.exact_ranges TimeCrate.exact_isExact _ hwire
  exact ⟨hnaive.mpr (show 43200000000100 < nanosPerDay by decide),
    htime.mpr (show 43200000000100 < nanosPerDay by decide)⟩

/-- The increments of a whole day fit into the five bytes of a `time`, and both crates
read them as midnight. -/
theorem wholeDay_read_as_midnight :
    @ColumnData.FromWire .ascii (.time (some { increments := 864000000000, scale := 7 })) ∧
      (∃ midnight, @Chrono.NaiveTime.fromSql .exact .exact
          (.time (some { increments := 864000000000, scale := 7 })) = .ok (some midnight) ∧
        @Chrono.nanosOfDay .exact midnight = 0) ∧
      ∃ midnight, @TimeCrate.Time.fromSql .exact .exact
          (.time (some { increments := 864000000000, scale := 7 })) = .ok (some midnight) ∧
        @TimeCrate.nanosOfDay .exact midnight = 0 := by
  refine ⟨⟨Context.new, .varLenSized { type := .timen, len := 7, collation := none },
    [5, 0x00, 0xC0, 0x69, 0x2A, 0xC9], rfl⟩, ?_, ?_⟩
  · obtain ⟨midnight, hfrom, -, hzero⟩ :=
      @Chrono.Exact.fromNanos_mod .exact Chrono.exact_isExact nanosPerDay
    refine ⟨midnight, ?_, hzero⟩
    have hnanos : Chrono.nanosFromIncrements 864000000000 7 = nanosPerDay := by decide
    change (@Chrono.fromNanos .exact (Chrono.nanosFromIncrements 864000000000 7)).map some = _
    rw [hnanos, hfrom]
    rfl
  · obtain ⟨midnight, hfrom, hzero⟩ :=
      @TimeCrate.fromNanos_mod .exact TimeCrate.exact_isExact nanosPerDay
    refine ⟨midnight, ?_, hzero⟩
    have hnanos : TimeCrate.nanosFromIncrements 864000000000 7 = nanosPerDay := by decide
    change (@TimeCrate.fromNanos .exact (TimeCrate.nanosFromIncrements 864000000000 7)).map some = _
    rw [hnanos, hfrom]
    rfl

end Tiberius
