import Tiberius.Calendar.Days
import Tiberius.FromSql

/-!
The conversions between column values and the types of `chrono`. The crate enters
as a parameter: its dates, times and offsets with the functions that the
conversions call. What is relied on is that it counts days and nanoseconds exactly.
-/

namespace Tiberius

/-- The `chrono` crate, as far as the conversions use it. -/
class ChronoCrate where
  NaiveDate : Type
  NaiveTime : Type
  FixedOffset : Type
  /-- `NaiveDate::from_ymd_opt`. -/
  fromYmdOpt : ℤ → ℕ → ℕ → Option NaiveDate
  /-- `date.checked_add_signed(Duration::days(days))`. -/
  checkedAddDays : NaiveDate → ℤ → Option NaiveDate
  /-- `date.signed_duration_since(other).num_days()`. -/
  numDaysSince : NaiveDate → NaiveDate → ℤ
  /-- `NaiveTime::from_hms_opt`. -/
  fromHmsOpt : ℕ → ℕ → ℕ → Option NaiveTime
  /-- `NaiveTime::from_num_seconds_from_midnight_opt`. -/
  fromNumSecondsFromMidnightOpt : ℕ → ℕ → Option NaiveTime
  /-- `time + Duration::nanoseconds(nanos)`. -/
  addNanoseconds : NaiveTime → ℤ → NaiveTime
  numSecondsFromMidnight : NaiveTime → ℕ
  nanosecond : NaiveTime → ℕ
  /-- `NaiveDateTime::new(date, time).checked_sub_signed(Duration::minutes(minutes))`. -/
  checkedSubMinutes : NaiveDate → NaiveTime → ℤ → Option (NaiveDate × NaiveTime)
  /-- `FixedOffset::east_opt`. -/
  eastOpt : ℤ → Option FixedOffset
  localMinusUtc : FixedOffset → ℤ

namespace Chrono

open Calendar ChronoCrate

def validateOffsetMinutes (minutes : Int16) : Except Fault ℤ :=
  if -840 ≤ minutes.toInt ∧ minutes.toInt ≤ 840 then .ok minutes.toInt
  else
    .error (.error (.protocol ("datetimeoffset offset " ++ toString minutes ++
      " minutes is outside the valid -14:00..=+14:00 range")))

def nanosFromIncrements (increments : UInt64) (scale : UInt8) : ℕ :=
  min (saturatingMul increments.toNat (saturatingPow10 (9 - scale.toNat))) (2 ^ 63 - 1)

theorem nanosFromIncrements_eq {time : Time} (htime : time.InDay) :
    nanosFromIncrements time.increments time.scale = time.nanos := by
  have hlt := htime.nanos_lt
  unfold nanosPerDay at hlt
  unfold nanosFromIncrements
  rw [htime.saturatingMul_eq]
  exact Nat.min_eq_left (by omega)

section Conversions

variable [ChronoCrate]

structure NaiveDateTime where
  date : NaiveDate
  time : NaiveTime

/-- `DateTime<Utc>`. -/
structure DateTimeUtc where
  naiveUtc : NaiveDateTime

/-- `DateTime<FixedOffset>`. -/
structure DateTimeFixedOffset where
  naiveUtc : NaiveDateTime
  timezone : FixedOffset

def fromDays (days startYear : ℤ) : Except Fault NaiveDate := do
  let base ← unwrap (fromYmdOpt startYear 1 1)
  orProtocol ("date day offset " ++ toString days ++ " is out of the representable range")
    (checkedAddDays base days)

/-- Midnight, and the nanoseconds since then. -/
def fromNanos (nanos : ℤ) : Except Fault NaiveTime := do
  let midnight ← unwrap (fromHmsOpt 0 0 0)
  .ok (addNanoseconds midnight nanos)

def fromSecFragments (secFragments : ℕ) : Except Fault NaiveTime :=
  fromNanos (secFragments * 10 ^ 9 / 300 : ℕ)

def fromMins (mins : ℕ) : Except Fault NaiveTime :=
  orProtocol ("smalldatetime seconds-of-day " ++ toString mins ++ " is out of range")
    (fromNumSecondsFromMidnightOpt mins 0)

def toDays (date : NaiveDate) (startYear : ℤ) : Except Fault ℤ := do
  let base ← unwrap (fromYmdOpt startYear 1 1)
  .ok (numDaysSince date base)

/-- The date and the time of a `datetime2`. -/
def fromDateTime2 (dt : DateTime2) : Except Fault NaiveDateTime := do
  let date ← fromDays dt.date.days.toNat 1
  let time ← fromNanos (nanosFromIncrements dt.time.increments dt.time.scale)
  .ok { date := date, time := time }

section FromSql

variable [StdLib]

def NaiveDateTime.fromSql : ColumnData → Except Fault (Option NaiveDateTime)
  | .smallDateTime dt => nullable (fun dt : SmallDateTime => do
      let date ← fromDays dt.days.toNat 1900
      let time ← fromMins (dt.secondsFragments.toNat * 60)
      .ok { date := date, time := time }) dt
  | .dateTime2 dt => nullable fromDateTime2 dt
  | .dateTime dt => nullable (fun dt : DateTime => do
      let date ← fromDays dt.days.toInt 1900
      let time ← fromSecFragments dt.secondsFragments.toNat
      .ok { date := date, time := time }) dt
  | data => cannotInterpret data "NaiveDateTime"

def NaiveTime.fromSql : ColumnData → Except Fault (Option NaiveTime)
  | .time time => nullable (fun time : Time =>
      fromNanos (nanosFromIncrements time.increments time.scale)) time
  | data => cannotInterpret data "NaiveTime"

def NaiveDate.fromSql : ColumnData → Except Fault (Option NaiveDate)
  | .date date => nullable (fun date : Date => fromDays date.days.toNat 1) date
  | data => cannotInterpret data "NaiveDate"

def DateTimeUtc.fromSql : ColumnData → Except Fault (Option DateTimeUtc)
  | .dateTimeOffset dto => nullable (fun dto : DateTimeOffset => do
      let base ← fromDateTime2 dto.datetime2
      let minutes ← validateOffsetMinutes dto.offset
      let naive ← orProtocol "datetimeoffset value is out of the representable range"
        (checkedSubMinutes base.date base.time minutes)
      .ok { naiveUtc := { date := naive.1, time := naive.2 } }) dto
  | .dateTime2 dt2 => nullable (fun dt2 : DateTime2 => do
      let naive ← fromDateTime2 dt2
      .ok { naiveUtc := naive }) dt2
  | data => cannotInterpret data "chrono::DateTime<Utc>"

def DateTimeFixedOffset.fromSql : ColumnData → Except Fault (Option DateTimeFixedOffset)
  | .dateTimeOffset dto => nullable (fun dto : DateTimeOffset => do
      let naive ← fromDateTime2 dto.datetime2
      let minutes ← validateOffsetMinutes dto.offset
      let offset ← orProtocol "datetimeoffset offset is not representable" (eastOpt (minutes * 60))
      .ok { naiveUtc := naive, timezone := offset }) dto
  | data => cannotInterpret data "chrono::DateTime<FixedOffset>"

end FromSql

section ToSql

/-- `Date::new_unchecked` of the days since the first of January of year 1. -/
def dateOf (date : NaiveDate) : Except Fault Date := do
  let days ← toDays date 1
  .ok { days := UInt32.ofInt days }

/-- The time in increments of 100 nanoseconds. -/
def timeOf (time : NaiveTime) : Time where
  increments := UInt64.ofNat ((numSecondsFromMidnight time * 10 ^ 9 + nanosecond time) / 100)
  scale := 7

def dateTime2Of (datetime : NaiveDateTime) : Except Fault DateTime2 := do
  let date ← dateOf datetime.date
  .ok { date := date, time := timeOf datetime.time }

def NaiveDate.toSql (date : NaiveDate) : Except Fault ColumnData :=
  (dateOf date).map fun date => .date (some date)

def NaiveTime.toSql (time : NaiveTime) : Except Fault ColumnData := .ok (.time (some (timeOf time)))

def NaiveDateTime.toSql (datetime : NaiveDateTime) : Except Fault ColumnData :=
  (dateTime2Of datetime).map fun dt => .dateTime2 (some dt)

def DateTimeUtc.toSql (datetime : DateTimeUtc) : Except Fault ColumnData :=
  (dateTime2Of datetime.naiveUtc).map fun dt => .dateTime2 (some dt)

def DateTimeFixedOffset.toSql (datetime : DateTimeFixedOffset) : Except Fault ColumnData := do
  let dt ← dateTime2Of datetime.naiveUtc
  let offset := Int16.ofInt ((localMinusUtc datetime.timezone).tdiv 60)
  .ok (.dateTimeOffset (some { datetime2 := dt, offset := offset }))

/-- `IntoSql` computes the same values from what it takes over. -/
def NaiveDate.intoSql (date : NaiveDate) : Except Fault ColumnData := NaiveDate.toSql date

def NaiveTime.intoSql (time : NaiveTime) : Except Fault ColumnData := NaiveTime.toSql time

def NaiveDateTime.intoSql (datetime : NaiveDateTime) : Except Fault ColumnData := datetime.toSql

def DateTimeUtc.intoSql (datetime : DateTimeUtc) : Except Fault ColumnData := datetime.toSql

def DateTimeFixedOffset.intoSql (datetime : DateTimeFixedOffset) : Except Fault ColumnData :=
  datetime.toSql

end ToSql

section Exact

/-- The number of a date is its distance to the first of January of year 1. -/
def dayNumber (date : NaiveDate) : ℤ := ((fromYmdOpt 1 1 1).map (numDaysSince date)).getD 0

def nanosOfDay (time : NaiveTime) : ℕ := numSecondsFromMidnight time * 10 ^ 9 + nanosecond time

/-- A time outside of leap seconds: those have nanoseconds from `10 ^ 9` on. -/
def Regular (time : NaiveTime) : Prop := nanosecond time < 10 ^ 9

def NaiveDateTime.instant (datetime : NaiveDateTime) : ℤ :=
  Calendar.instant (dayNumber datetime.date) (nanosOfDay datetime.time)

def DateTimeUtc.instant (datetime : DateTimeUtc) : ℤ := datetime.naiveUtc.instant

def DateTimeFixedOffset.instant (datetime : DateTimeFixedOffset) : ℤ := datetime.naiveUtc.instant

/-- What is relied on: dates from year 1 to year 9999 are all there and are counted
by days, times are counted by nanoseconds and start over at midnight, and offsets
of less than a day are counted by seconds. -/
structure Exact : Prop where
  firstOfYear : ∀ year, 1 ≤ year → year ≤ 9999 →
    ∃ date, fromYmdOpt year 1 1 = some date ∧ dayNumber date = firstDay year
  numDays : ∀ date other, numDaysSince date other = dayNumber date - dayNumber other
  addDays : ∀ date days other,
    checkedAddDays date days = some other ↔ dayNumber other = dayNumber date + days
  dates : ∀ day, InYears 1 9999 day → ∃ date, dayNumber date = day
  midnight : ∃ time, fromHmsOpt 0 0 0 = some time ∧ nanosOfDay time = 0
  secondsLt : ∀ time, numSecondsFromMidnight time < 86400
  addNanos : ∀ time nanos, Regular time → Regular (addNanoseconds time nanos) ∧
    (nanosOfDay (addNanoseconds time nanos) : ℤ) = (nanosOfDay time + nanos) % nanosPerDay
  subMinutes : ∀ date time minutes date' time', Regular time →
    (checkedSubMinutes date time minutes = some (date', time') ↔ Regular time' ∧
      instant (dayNumber date') (nanosOfDay time') =
        instant (dayNumber date) (nanosOfDay time) - minutes * 60 * 10 ^ 9)
  east : ∀ seconds, -86400 < seconds → seconds < 86400 →
    ∃ offset, eastOpt seconds = some offset ∧ localMinusUtc offset = seconds
  offsets : ∀ offset other, localMinusUtc offset = localMinusUtc other → offset = other

/-- The ranges of the crate: dates of some 262000 years before and after year 1, leap
seconds as up to two seconds of nanoseconds, and seconds of a day. -/
structure Ranges : Prop where
  days : ∀ date, InYears (-262144) 262143 (dayNumber date)
  dates : ∀ day, InYears (-262143) 262142 day → ∃ date, dayNumber date = day
  nanosecondLt : ∀ time, nanosecond time < 2 * 10 ^ 9
  secondsOfDay : ∀ seconds, seconds < 86400 →
    ∃ time, fromNumSecondsFromMidnightOpt seconds 0 = some time ∧ nanosOfDay time = seconds * 10 ^ 9
  secondsBeyond : ∀ seconds, 86400 ≤ seconds → fromNumSecondsFromMidnightOpt seconds 0 = none

namespace Exact

theorem dayNumber_inj (hexact : Exact) {date other : NaiveDate}
    (hday : dayNumber date = dayNumber other) : date = other := by
  have hself : checkedAddDays date 0 = some date := (hexact.addDays _ _ _).mpr (by omega)
  have hother : checkedAddDays date 0 = some other := (hexact.addDays _ _ _).mpr (by omega)
  exact Option.some.inj (hself.symm.trans hother)

theorem regular_lt (hexact : Exact) {time : NaiveTime} (htime : Regular time) :
    nanosOfDay time < nanosPerDay := by
  have hseconds := hexact.secondsLt time
  unfold Regular at htime
  unfold nanosOfDay nanosPerDay
  omega

theorem fromDays_eq (hexact : Exact) {date : NaiveDate} {days year : ℤ} (hlow : 1 ≤ year)
    (hhigh : year ≤ 9999) (hdate : dayNumber date = firstDay year + days) :
    fromDays days year = .ok date := by
  obtain ⟨base, hbase, hfirst⟩ := hexact.firstOfYear year hlow hhigh
  have hadd : checkedAddDays base days = some date := by
    rw [hexact.addDays, hfirst]
    exact hdate
  unfold fromDays
  rw [hbase]
  change orProtocol _ (checkedAddDays base days) = _
  rw [hadd]
  rfl

/-- The nanoseconds since midnight start over after a day. -/
theorem fromNanos_mod (hexact : Exact) (nanos : ℕ) :
    ∃ time, fromNanos nanos = .ok time ∧ Regular time ∧ nanosOfDay time = nanos % nanosPerDay := by
  obtain ⟨midnight, hmidnight, hzero⟩ := hexact.midnight
  have hregular : Regular midnight := by
    unfold nanosOfDay at hzero
    unfold Regular
    omega
  obtain ⟨htime, hadd⟩ := hexact.addNanos midnight nanos hregular
  refine ⟨addNanoseconds midnight nanos, ?_, htime, ?_⟩
  · unfold fromNanos
    rw [hmidnight]
    rfl
  · rw [hzero] at hadd
    unfold nanosPerDay at *
    omega

theorem fromNanos_ok (hexact : Exact) {nanos : ℕ} (hnanos : nanos < nanosPerDay) :
    ∃ time, fromNanos nanos = .ok time ∧ Regular time ∧ nanosOfDay time = nanos := by
  obtain ⟨time, hfrom, hregular, htime⟩ := hexact.fromNanos_mod nanos
  exact ⟨time, hfrom, hregular, htime.trans (Nat.mod_eq_of_lt hnanos)⟩

/-- A `datetime2` is read as its day and its time of day. -/
theorem fromDateTime2_ok (hexact : Exact) {dt : DateTime2}
    (hdate : InYears 1 9999 dt.date.days.toNat) (htime : dt.time.InDay) :
    ∃ naive, fromDateTime2 dt = .ok naive ∧ Regular naive.time ∧
      dayNumber naive.date = dt.date.days.toNat ∧ nanosOfDay naive.time = dt.time.nanos := by
  obtain ⟨date, hday⟩ := hexact.dates _ hdate
  obtain ⟨time, hfrom, hregular, hnanos⟩ := hexact.fromNanos_ok htime.nanos_lt
  refine ⟨{ date := date, time := time }, ?_, hregular, hday, hnanos⟩
  have hdays : fromDays dt.date.days.toNat 1 = .ok date :=
    hexact.fromDays_eq (by decide) (by decide) (by rw [hday]; exact (Int.zero_add _).symm)
  unfold fromDateTime2
  rw [hdays, nanosFromIncrements_eq htime, hfrom]
  rfl

theorem dateOf_eq (hexact : Exact) (date : NaiveDate) :
    dateOf date = .ok (Date.ofDay (dayNumber date)) := by
  obtain ⟨base, hbase, hfirst⟩ := hexact.firstOfYear 1 (by decide) (by decide)
  have hzero : dayNumber base = 0 := hfirst
  unfold dateOf toDays
  rw [hbase]
  change Except.ok ({ days := UInt32.ofInt (numDaysSince date base) } : Date) = _
  rw [hexact.numDays, hzero, Int.sub_zero]
  rfl

theorem dateTime2Of_eq (hexact : Exact) (datetime : NaiveDateTime) :
    dateTime2Of datetime = .ok
      { date := Date.ofDay (dayNumber datetime.date)
        time := Time.ofNanos (nanosOfDay datetime.time) } := by
  unfold dateTime2Of
  rw [hexact.dateOf_eq]
  rfl

end Exact

end Exact

end Conversions

end Chrono

section

open Calendar

/-- A time of day that starts over at midnight. -/
def ChronoCrate.exactTime (nanos : ℤ) : { time : ℕ × ℕ // time.1 < 86400 ∧ time.2 < 2 * 10 ^ 9 } :=
  ⟨((nanos % nanosPerDay / 10 ^ 9).toNat, (nanos % 10 ^ 9).toNat), by
    unfold nanosPerDay
    omega⟩

/-- A crate that counts exactly, in the range of dates that `chrono` has. Of a year
it knows the first of January. -/
@[reducible] def ChronoCrate.exact : ChronoCrate where
  NaiveDate := { day : ℤ // InYears (-262143) 262142 day }
  NaiveTime := { time : ℕ × ℕ // time.1 < 86400 ∧ time.2 < 2 * 10 ^ 9 }
  FixedOffset := { seconds : ℤ // -86400 < seconds ∧ seconds < 86400 }
  fromYmdOpt year month day :=
    if h : InYears (-262143) 262142 (firstDay year) then
      if month = 1 ∧ day = 1 then some ⟨firstDay year, h⟩ else none
    else none
  checkedAddDays date days :=
    if h : InYears (-262143) 262142 (date.val + days) then some ⟨date.val + days, h⟩ else none
  numDaysSince date other := date.val - other.val
  fromHmsOpt hour minute second :=
    if hour < 24 ∧ minute < 60 ∧ second < 60 then
      some (exactTime ((hour * 3600 + minute * 60 + second : ℕ) * 10 ^ 9))
    else none
  fromNumSecondsFromMidnightOpt seconds nanos :=
    if h : seconds < 86400 ∧ nanos < 2 * 10 ^ 9 then some ⟨(seconds, nanos), h⟩ else none
  addNanoseconds time nanos := exactTime (time.val.1 * 10 ^ 9 + time.val.2 + nanos)
  numSecondsFromMidnight time := time.val.1
  nanosecond time := time.val.2
  checkedSubMinutes date time minutes :=
    let result := instant date.val (time.val.1 * 10 ^ 9 + time.val.2) - minutes * 60 * 10 ^ 9
    if h : InYears (-262143) 262142 (result / nanosPerDay) then
      some (⟨result / nanosPerDay, h⟩, exactTime result)
    else none
  eastOpt seconds :=
    if h : -86400 < seconds ∧ seconds < 86400 then some ⟨seconds, h⟩ else none
  localMinusUtc offset := offset.val

theorem Chrono.exact_dayNumber (date : { day : ℤ // InYears (-262143) 262142 day }) :
    @Chrono.dayNumber .exact date = date.val := by
  change date.val - firstDay 1 = date.val
  exact Int.sub_zero _

theorem Chrono.exactTime_nanos (nanos : ℤ) :
    (@Chrono.nanosOfDay .exact (ChronoCrate.exactTime nanos) : ℤ) = nanos % nanosPerDay ∧
      @Chrono.Regular .exact (ChronoCrate.exactTime nanos) := by
  change (((nanos % nanosPerDay / 10 ^ 9).toNat * 10 ^ 9 + (nanos % 10 ^ 9).toNat : ℕ) : ℤ) = _ ∧
    (nanos % 10 ^ 9).toNat < 10 ^ 9
  unfold nanosPerDay
  omega

theorem Chrono.exact_isExact : @Chrono.Exact .exact := by
  refine @Chrono.Exact.mk .exact ?firstOfYear ?numDays ?addDays ?dates ?midnight ?secondsLt
    ?addNanos ?subMinutes ?east ?offsets
  case firstOfYear =>
    intro year hlow hhigh
    have hyear : InYears (-262143) 262142 (firstDay year) := by
      unfold InYears firstDay
      omega
    exact ⟨⟨firstDay year, hyear⟩, dif_pos hyear, exact_dayNumber _⟩
  case numDays =>
    intro date other
    rw [exact_dayNumber, exact_dayNumber]
    rfl
  case addDays =>
    intro date days other
    rw [exact_dayNumber, exact_dayNumber]
    exact add_inside_iff date other days
  case dates =>
    intro day hday
    have hinside : InYears (-262143) 262142 day := by
      unfold InYears firstDay at *
      omega
    exact ⟨⟨day, hinside⟩, exact_dayNumber _⟩
  case midnight => exact ⟨ChronoCrate.exactTime 0, rfl, rfl⟩
  case secondsLt =>
    intro time
    exact time.property.1
  case addNanos =>
    intro time nanos _
    obtain ⟨hnanos, hregular⟩ :=
      exactTime_nanos (time.val.1 * 10 ^ 9 + time.val.2 + nanos)
    exact ⟨hregular, hnanos⟩
  case subMinutes =>
    intro date time minutes date' time' _
    rw [exact_dayNumber, exact_dayNumber]
    change (if h : _ then some _ else none) = some (date', time') ↔ _
    have hnanos : @Chrono.nanosOfDay .exact time = time.val.1 * 10 ^ 9 + time.val.2 := rfl
    have hnanos' : @Chrono.nanosOfDay .exact time' = time'.val.1 * 10 ^ 9 + time'.val.2 := rfl
    have hregular : @Chrono.Regular .exact time' ↔ time'.val.2 < 10 ^ 9 := Iff.rfl
    rw [hnanos, hnanos', hregular]
    generalize instant date.val (time.val.1 * 10 ^ 9 + time.val.2) - minutes * 60 * 10 ^ 9 = result
    have htime' := time'.property
    constructor
    · intro hsome
      split at hsome
      next hinside =>
        cases hsome
        unfold instant ChronoCrate.exactTime nanosPerDay
        dsimp only
        omega
      · cases hsome
    · rintro ⟨hless, hinstant⟩
      unfold instant nanosPerDay at hinstant
      have hday : result / nanosPerDay = date'.val := by
        unfold nanosPerDay
        omega
      have hinside : InYears (-262143) 262142 (result / nanosPerDay) := hday ▸ date'.property
      rw [dif_pos hinside]
      refine congrArg some (Prod.ext (Subtype.ext hday) (Subtype.ext (Prod.ext ?_ ?_)))
      · change (result % nanosPerDay / 10 ^ 9).toNat = time'.val.1
        unfold nanosPerDay
        omega
      · change (result % 10 ^ 9).toNat = time'.val.2
        omega
  case east =>
    intro seconds hlow hhigh
    exact ⟨⟨seconds, hlow, hhigh⟩, dif_pos ⟨hlow, hhigh⟩, rfl⟩
  case offsets =>
    intro offset other hsame
    exact Subtype.ext hsame

theorem Chrono.exact_ranges : @Chrono.Ranges .exact := by
  refine @Chrono.Ranges.mk .exact ?days ?dates ?nanosecondLt ?secondsOfDay ?secondsBeyond
  case days =>
    intro date
    have hdate := date.property
    rw [exact_dayNumber]
    unfold InYears firstDay at *
    omega
  case dates =>
    intro day hday
    exact ⟨⟨day, hday⟩, exact_dayNumber _⟩
  case nanosecondLt =>
    intro time
    exact time.property.2
  case secondsOfDay =>
    intro seconds hseconds
    have hnone : 0 < 2 * 10 ^ 9 := by decide
    exact ⟨⟨(seconds, 0), hseconds, hnone⟩, dif_pos ⟨hseconds, hnone⟩, Nat.add_zero _⟩
  case secondsBeyond =>
    intro seconds hseconds
    exact dif_neg fun hboth => Nat.not_lt.mpr hseconds hboth.1

end

end Tiberius
