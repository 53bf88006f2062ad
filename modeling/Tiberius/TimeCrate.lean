import Tiberius.FromSql

/-!
The conversions between column values and the types of the `time` crate, which
enters as a parameter like `chrono`. A date and time with an offset is local time
in this crate, so it is moved to UTC for the wire and back behind it.
-/

namespace Tiberius

/-- The `time` crate, as far as the conversions use it. -/
class TimeCrate where
  Date : Type
  Time : Type
  UtcOffset : Type
  OffsetDateTime : Type
  /-- `Date::from_calendar_date`. -/
  fromCalendarDate : ℤ → ℕ → ℕ → Option Date
  /-- `date.checked_add(Duration::days(days))`. -/
  checkedAddDays : Date → ℤ → Option Date
  /-- `(date - other).whole_days()`. -/
  wholeDaysSince : Date → Date → ℤ
  /-- `Time::from_hms`. -/
  fromHms : ℕ → ℕ → ℕ → Option Time
  /-- `time + Duration::from_nanos(nanos)`. -/
  addNanos : Time → ℕ → Time
  /-- `(time - other).whole_nanoseconds()`. -/
  wholeNanosecondsSince : Time → Time → ℤ
  /-- `UtcOffset::from_whole_seconds`. -/
  fromWholeSeconds : ℤ → Option UtcOffset
  wholeSeconds : UtcOffset → ℤ
  /-- `UtcOffset::UTC`. -/
  utc : UtcOffset
  /-- `date.with_time(time).assume_utc()`. -/
  assumeUtc : Date → Time → OffsetDateTime
  /-- `OffsetDateTime::to_offset`, with `none` for a panic. -/
  toOffset : OffsetDateTime → UtcOffset → Option OffsetDateTime
  date : OffsetDateTime → Date
  time : OffsetDateTime → Time
  offset : OffsetDateTime → UtcOffset

namespace TimeCrate

open Calendar

def nanosFromIncrements (increments : UInt64) (scale : UInt8) : ℕ :=
  saturatingMul increments.toNat (saturatingPow10 (9 - scale.toNat))

section Conversions

variable [TimeCrate]

structure PrimitiveDateTime where
  date : Date
  time : Time

def fromDays (days startYear : ℤ) : Except Fault Date := do
  let base ← unwrap (fromCalendarDate startYear 1 1)
  orProtocol ("date day offset " ++ toString days ++ " is out of the representable range")
    (checkedAddDays base days)

def offsetFromMinutes (minutes : Int16) : Except Fault UtcOffset :=
  if -840 ≤ minutes.toInt ∧ minutes.toInt ≤ 840 then
    orProtocol "datetimeoffset offset is not representable" (fromWholeSeconds (minutes.toInt * 60))
  else
    .error (.error (.protocol ("datetimeoffset offset " ++ toString minutes ++
      " minutes is outside the valid -14:00..=+14:00 range")))

/-- Midnight, and the nanoseconds since then. -/
def fromNanos (nanos : ℕ) : Except Fault Time := do
  let midnight ← unwrap (fromHms 0 0 0)
  .ok (addNanos midnight nanos)

def fromSecs (secs : ℕ) : Except Fault Time :=
  if 86400 ≤ secs then
    .error (.error (.protocol
      ("smalldatetime seconds-of-day " ++ toString secs ++ " is out of range")))
  else fromNanos (secs * 10 ^ 9)

def fromSecFragments (secFragments : ℕ) : Except Fault Time :=
  fromNanos (secFragments * 10 ^ 9 / 300)

def toDays (date : Date) (startYear : ℤ) : Except Fault ℤ := do
  let base ← unwrap (fromCalendarDate startYear 1 1)
  .ok (wholeDaysSince date base)

section FromSql

variable [StdLib]

def PrimitiveDateTime.fromSql : ColumnData → Except Fault (Option PrimitiveDateTime)
  | .smallDateTime dt => nullable (fun dt : SmallDateTime => do
      let date ← fromDays dt.days.toNat 1900
      let time ← fromSecs (dt.secondsFragments.toNat * 60)
      .ok { date := date, time := time }) dt
  | .dateTime2 dt => nullable (fun dt : DateTime2 => do
      let date ← fromDays dt.date.days.toNat 1
      let time ← fromNanos (nanosFromIncrements dt.time.increments dt.time.scale)
      .ok { date := date, time := time }) dt
  | .dateTime dt => nullable (fun dt : DateTime => do
      let date ← fromDays dt.days.toInt 1900
      let time ← fromSecFragments dt.secondsFragments.toNat
      .ok { date := date, time := time }) dt
  | data => cannotInterpret data "PrimitiveDateTime"

def Time.fromSql : ColumnData → Except Fault (Option Time)
  | .time time => nullable (fun time : Tiberius.Time =>
      fromNanos (nanosFromIncrements time.increments time.scale)) time
  | data => cannotInterpret data "Time"

def Date.fromSql : ColumnData → Except Fault (Option Date)
  | .date date => nullable (fun date : Tiberius.Date => fromDays date.days.toNat 1) date
  | data => cannotInterpret data "Date"

def OffsetDateTime.fromSql : ColumnData → Except Fault (Option OffsetDateTime)
  | .dateTimeOffset dto => nullable (fun dto : DateTimeOffset => do
      let date ← fromDays dto.datetime2.date.days.toNat 1
      let time ← fromNanos
        (nanosFromIncrements dto.datetime2.time.increments dto.datetime2.time.scale)
      let offset ← offsetFromMinutes dto.offset
      unwrap (toOffset (assumeUtc date time) offset)) dto
  | data => cannotInterpret data "OffsetDateTime"

end FromSql

section ToSql

/-- `Date::new` of the days since the first of January of year 1. -/
def dateOf (date : Date) : Except Fault Tiberius.Date := do
  let days ← toDays date 1
  Date.ofDays (UInt32.ofInt days)

/-- The time in increments of 100 nanoseconds. -/
def timeOf (time : Time) : Except Fault Tiberius.Time := do
  let midnight ← unwrap (fromHms 0 0 0)
  let nanos := wholeNanosecondsSince time midnight
  if 0 ≤ nanos ∧ nanos < 2 ^ 64 then
    .ok { increments := UInt64.ofNat (nanos.toNat / 100), scale := 7 }
  else .error .panic

def dateTime2Of (date : Date) (time : Time) : Except Fault DateTime2 := do
  let time ← timeOf time
  let date ← dateOf date
  .ok { date := date, time := time }

def Date.toSql (date : Date) : Except Fault ColumnData :=
  (dateOf date).map fun date => .date (some date)

def Time.toSql (time : Time) : Except Fault ColumnData :=
  (timeOf time).map fun time => .time (some time)

def PrimitiveDateTime.toSql (datetime : PrimitiveDateTime) : Except Fault ColumnData :=
  (dateTime2Of datetime.date datetime.time).map fun dt => .dateTime2 (some dt)

def OffsetDateTime.toSql (datetime : OffsetDateTime) : Except Fault ColumnData := do
  let minutes := Int16.ofInt ((wholeSeconds (offset datetime)).tdiv 60)
  let utcDate ← unwrap (toOffset datetime utc)
  let dt ← dateTime2Of (date utcDate) (time utcDate)
  .ok (.dateTimeOffset (some { datetime2 := dt, offset := minutes }))

end ToSql

section Exact

/-- The number of a date is its distance to the first of January of year 1. -/
def dayNumber (date : Date) : ℤ := ((fromCalendarDate 1 1 1).map (wholeDaysSince date)).getD 0

def nanosOfDay (time : Time) : ℕ :=
  (((fromHms 0 0 0).map (wholeNanosecondsSince time)).getD 0).toNat

/-- Local time, less the offset. -/
def OffsetDateTime.instant (datetime : OffsetDateTime) : ℤ :=
  Calendar.instant (dayNumber (date datetime)) (nanosOfDay (time datetime)) -
    wholeSeconds (offset datetime) * 10 ^ 9

/-- What is relied on: dates from year 1 to year 9999 are all there and are counted
by days, times are counted by nanoseconds and start over at midnight, offsets of
less than a day are counted by seconds, and a change of the offset keeps the
instant. -/
structure Exact : Prop where
  firstOfYear : ∀ year, 1 ≤ year → year ≤ 9999 →
    ∃ date, fromCalendarDate year 1 1 = some date ∧ dayNumber date = firstDay year
  wholeDays : ∀ date other, wholeDaysSince date other = dayNumber date - dayNumber other
  addDays : ∀ date days other,
    checkedAddDays date days = some other ↔ dayNumber other = dayNumber date + days
  dates : ∀ day, InYears 1 9999 day → ∃ date, dayNumber date = day
  midnight : ∃ midnight, fromHms 0 0 0 = some midnight ∧ nanosOfDay midnight = 0 ∧
    ∀ time, wholeNanosecondsSince time midnight = nanosOfDay time
  nanosLt : ∀ time, nanosOfDay time < nanosPerDay
  addition : ∀ time nanos,
    nanosOfDay (addNanos time nanos) = (nanosOfDay time + nanos) % nanosPerDay
  times : ∀ time other, nanosOfDay time = nanosOfDay other → time = other
  fromWholeSeconds : ∀ seconds, -86400 < seconds → seconds < 86400 →
    ∃ offset, fromWholeSeconds seconds = some offset ∧ wholeSeconds offset = seconds
  offsets : ∀ offset other, wholeSeconds offset = wholeSeconds other → offset = other
  utcSeconds : wholeSeconds utc = 0
  assumed : ∀ d t,
    date (assumeUtc d t) = d ∧ time (assumeUtc d t) = t ∧ offset (assumeUtc d t) = utc
  values : ∀ d t o, ∃ datetime, date datetime = d ∧ time datetime = t ∧ offset datetime = o
  change : ∀ datetime o other, toOffset datetime o = some other ↔
    offset other = o ∧ OffsetDateTime.instant other = OffsetDateTime.instant datetime

/-- The range of the crate, with or without its large dates. -/
structure Ranges : Prop where
  days : ∀ date, InYears (-999999) 999999 (dayNumber date)

namespace Exact

theorem fromDays_eq (hexact : Exact) {date : Date} {days year : ℤ} (hlow : 1 ≤ year)
    (hhigh : year ≤ 9999) (hdate : dayNumber date = firstDay year + days) :
    fromDays days year = .ok date := by
  obtain ⟨base, hbase, hfirst⟩ := hexact.firstOfYear year hlow hhigh
  have hadd : checkedAddDays base days = some date := by
    rw [hexact.addDays, hfirst]
    exact hdate
  unfold fromDays
  rw [hbase]
  change orProtocol _ (checkedAddDays base days) = _
  rw [hadd]
  rfl

theorem fromNanos_eq (hexact : Exact) {time : Time} {nanos : ℕ} (htime : nanosOfDay time = nanos) :
    fromNanos nanos = .ok time := by
  obtain ⟨midnight, hmidnight, hzero, -⟩ := hexact.midnight
  have hsum := hexact.addition midnight nanos
  have hlt := hexact.nanosLt time
  rw [hzero, Nat.zero_add, Nat.mod_eq_of_lt (by omega)] at hsum
  have hsame : addNanos midnight nanos = time := hexact.times _ _ (hsum.trans htime.symm)
  unfold fromNanos
  rw [hmidnight]
  change Except.ok (addNanos midnight nanos) = _
  rw [hsame]

/-- There is a time for every number of nanoseconds below a day. -/
theorem exists_time (hexact : Exact) {nanos : ℕ} (hnanos : nanos < nanosPerDay) :
    ∃ time, nanosOfDay time = nanos := by
  obtain ⟨midnight, -, hzero, -⟩ := hexact.midnight
  refine ⟨addNanos midnight nanos, ?_⟩
  rw [hexact.addition, hzero, Nat.zero_add, Nat.mod_eq_of_lt hnanos]

theorem dateOf_eq (hexact : Exact) {date : Date} (hdate : InYears 1 9999 (dayNumber date)) :
    dateOf date = .ok (Date.ofDay (dayNumber date)) := by
  obtain ⟨base, hbase, hfirst⟩ := hexact.firstOfYear 1 (by decide) (by decide)
  have hzero : dayNumber base = 0 := hfirst
  unfold dateOf toDays
  rw [hbase]
  change Date.ofDays (UInt32.ofInt (wholeDaysSince date base)) = _
  rw [hexact.wholeDays, hzero, Int.sub_zero]
  exact Date.ofDays_ofDay hdate

theorem timeOf_eq (hexact : Exact) (time : Time) :
    timeOf time = .ok (Time.ofNanos (nanosOfDay time)) := by
  obtain ⟨midnight, hmidnight, -, hsince⟩ := hexact.midnight
  have hlt := hexact.nanosLt time
  unfold nanosPerDay at hlt
  unfold timeOf
  rw [hmidnight]
  change (if _ ∧ _ then _ else _) = _
  rw [hsince, if_pos ⟨by omega, by omega⟩]
  rfl

theorem dateTime2Of_eq (hexact : Exact) {date : Date} (time : Time)
    (hdate : InYears 1 9999 (dayNumber date)) :
    dateTime2Of date time = .ok
      { date := Date.ofDay (dayNumber date), time := Time.ofNanos (nanosOfDay time) } := by
  unfold dateTime2Of
  rw [hexact.timeOf_eq, hexact.dateOf_eq hdate]
  rfl

end Exact

end Exact

end Conversions

/-- The local date and time of an instant, if the date is in range. -/
def exactLocal (moment : ℤ) (offset : { seconds : ℤ // -93600 < seconds ∧ seconds < 93600 }) :
    Option ({ day : ℤ // InYears (-9999) 9999 day } × { nanos : ℕ // nanos < nanosPerDay } ×
      { seconds : ℤ // -93600 < seconds ∧ seconds < 93600 }) :=
  let result := moment + offset.val * 10 ^ 9
  if h : InYears (-9999) 9999 (result / nanosPerDay) then
    some (⟨result / nanosPerDay, h⟩, ⟨(result % nanosPerDay).toNat, by unfold nanosPerDay; omega⟩,
      offset)
  else none

/-- A crate that counts exactly, in the range of dates that `time` has. Of a year it
knows the first of January. -/
@[reducible] def exact : TimeCrate where
  Date := { day : ℤ // InYears (-9999) 9999 day }
  Time := { nanos : ℕ // nanos < nanosPerDay }
  UtcOffset := { seconds : ℤ // -93600 < seconds ∧ seconds < 93600 }
  OffsetDateTime := { day : ℤ // InYears (-9999) 9999 day } × { nanos : ℕ // nanos < nanosPerDay } ×
    { seconds : ℤ // -93600 < seconds ∧ seconds < 93600 }
  fromCalendarDate year month day :=
    if h : InYears (-9999) 9999 (firstDay year) then
      if month = 1 ∧ day = 1 then some ⟨firstDay year, h⟩ else none
    else none
  checkedAddDays date days :=
    if h : InYears (-9999) 9999 (date.val + days) then some ⟨date.val + days, h⟩ else none
  wholeDaysSince date other := date.val - other.val
  fromHms hour minute second :=
    if h : hour < 24 ∧ minute < 60 ∧ second < 60 then
      some ⟨(hour * 3600 + minute * 60 + second) * 10 ^ 9, by unfold nanosPerDay; omega⟩
    else none
  addNanos time nanos :=
    ⟨(time.val + nanos) % nanosPerDay, Nat.mod_lt _ (by decide)⟩
  wholeNanosecondsSince time other := time.val - other.val
  fromWholeSeconds seconds :=
    if h : -93600 < seconds ∧ seconds < 93600 then some ⟨seconds, h⟩ else none
  wholeSeconds offset := offset.val
  utc := ⟨0, by decide⟩
  assumeUtc date time := (date, time, ⟨0, by decide⟩)
  toOffset datetime offset :=
    exactLocal (instant datetime.1.val datetime.2.1.val - datetime.2.2.val * 10 ^ 9) offset
  date datetime := datetime.1
  time datetime := datetime.2.1
  offset datetime := datetime.2.2

theorem exact_dayNumber (date : { day : ℤ // InYears (-9999) 9999 day }) :
    @dayNumber exact date = date.val := by
  change date.val - firstDay 1 = date.val
  exact Int.sub_zero _

theorem exact_nanosOfDay (time : { nanos : ℕ // nanos < nanosPerDay }) :
    @nanosOfDay exact time = time.val := by
  change ((time.val : ℤ) - 0).toNat = time.val
  rw [Int.sub_zero]
  rfl

theorem exact_instant (datetime : exact.OffsetDateTime) :
    @OffsetDateTime.instant exact datetime =
      instant datetime.1.val datetime.2.1.val - datetime.2.2.val * 10 ^ 9 := by
  change instant (@dayNumber exact datetime.1) (@nanosOfDay exact datetime.2.1) - _ = _
  rw [exact_dayNumber, exact_nanosOfDay]
  rfl

theorem exactLocal_eq_some (moment : ℤ)
    (o : { seconds : ℤ // -93600 < seconds ∧ seconds < 93600 })
    {day : { day : ℤ // InYears (-9999) 9999 day }} {nanos : { nanos : ℕ // nanos < nanosPerDay }}
    {offset : { seconds : ℤ // -93600 < seconds ∧ seconds < 93600 }} :
    exactLocal moment o = some (day, nanos, offset) ↔
      offset = o ∧ instant day.val nanos.val - offset.val * 10 ^ 9 = moment := by
  have hnanos := nanos.property
  unfold exactLocal
  dsimp only
  constructor
  · intro hsome
    split at hsome
    next hinside =>
      cases hsome
      refine ⟨rfl, ?_⟩
      unfold instant nanosPerDay
      dsimp only
      omega
    · cases hsome
  · rintro ⟨rfl, hinstant⟩
    unfold instant nanosPerDay at hinstant
    unfold nanosPerDay at hnanos
    have hday : (moment + offset.val * 10 ^ 9) / nanosPerDay = day.val := by
      unfold nanosPerDay
      omega
    have hinside : InYears (-9999) 9999 ((moment + offset.val * 10 ^ 9) / nanosPerDay) :=
      hday ▸ day.property
    rw [dif_pos hinside]
    refine congrArg some (Prod.ext (Subtype.ext hday) (Prod.ext (Subtype.ext ?_) rfl))
    change ((moment + offset.val * 10 ^ 9) % nanosPerDay).toNat = nanos.val
    unfold nanosPerDay
    omega

theorem exact_isExact : @Exact exact := by
  refine @Exact.mk exact ?firstOfYear ?wholeDays ?addDays ?dates ?midnight ?nanosLt ?addition ?times
    ?fromWholeSeconds ?offsets rfl ?assumed ?values ?change
  case firstOfYear =>
    intro year hlow hhigh
    have hyear : InYears (-9999) 9999 (firstDay year) := by
      unfold InYears firstDay
      omega
    exact ⟨⟨firstDay year, hyear⟩, dif_pos hyear, exact_dayNumber _⟩
  case wholeDays =>
    intro date other
    rw [exact_dayNumber, exact_dayNumber]
    rfl
  case addDays =>
    intro date days other
    rw [exact_dayNumber, exact_dayNumber]
    exact add_inside_iff date other days
  case dates =>
    intro day hday
    have hinside : InYears (-9999) 9999 day := by
      unfold InYears firstDay at *
      omega
    exact ⟨⟨day, hinside⟩, exact_dayNumber _⟩
  case midnight =>
    refine ⟨⟨0, by decide⟩, rfl, rfl, fun time => ?_⟩
    rw [exact_nanosOfDay]
    exact Int.sub_zero _
  case nanosLt =>
    intro time
    rw [exact_nanosOfDay]
    exact time.property
  case addition =>
    intro time nanos
    rw [exact_nanosOfDay, exact_nanosOfDay]
    rfl
  case times =>
    intro time other hsame
    rw [exact_nanosOfDay, exact_nanosOfDay] at hsame
    exact Subtype.ext hsame
  case fromWholeSeconds =>
    intro seconds hlow hhigh
    have hinside : -93600 < seconds ∧ seconds < 93600 := by omega
    exact ⟨⟨seconds, hinside⟩, dif_pos hinside, rfl⟩
  case offsets =>
    intro offset other hsame
    exact Subtype.ext hsame
  case assumed =>
    intro date time
    exact ⟨rfl, rfl, rfl⟩
  case values =>
    intro date time offset
    exact ⟨(date, time, offset), rfl, rfl, rfl⟩
  case change =>
    rintro datetime o ⟨day, nanos, offset⟩
    rw [exact_instant, exact_instant]
    exact exactLocal_eq_some _ o

theorem exact_ranges : @Ranges exact := by
  refine @Ranges.mk exact fun date => ?_
  have hdate := date.property
  rw [exact_dayNumber]
  unfold InYears firstDay at *
  omega

end TimeCrate

end Tiberius
