import Tiberius.TemporalRoundTrip

/-!
Dates that the wire has no room for. A date goes out as three bytes of days since
year 1, and the crates count days before and beyond those. The values of `chrono`
carry such a count unchecked to the encoder, which refuses it; those of `time` go
through the constructor that asserts it.
-/

namespace Tiberius

open Calendar Writing

/-- The days that three bytes hold. -/
def DayFits (day : ℤ) : Prop := 0 ≤ day ∧ day < 2 ^ 24

/-- The date of a value that has one. -/
def ColumnData.date? : ColumnData → Option Date
  | .date value => value
  | .dateTime2 dt => dt.map DateTime2.date
  | .dateTimeOffset dto => dto.map fun dto => dto.datetime2.date
  | _ => none

/-- A day in reach of the cast has room exactly if its wrapped number has. -/
theorem Date.ofDay_fits_iff {day : ℤ} (hlow : -2 ^ 31 ≤ day) (hhigh : day < 2 ^ 31) :
    (Date.ofDay day).days.toNat < 2 ^ 24 ↔ DayFits day := by
  have hmod := Date.ofDay_mod day
  unfold DayFits
  omega

/-- The constructor panics on a day that has no room. -/
theorem Date.ofDays_eq (day : ℤ) :
    Date.ofDays (UInt32.ofInt day) =
      if 2 ^ 24 ≤ (Date.ofDay day).days.toNat then .error .panic else .ok (Date.ofDay day) := by
  have hshift : (UInt32.ofInt day >>> 24 = 0) ↔ (Date.ofDay day).days.toNat < 2 ^ 24 := by
    rw [← UInt32.toNat_inj, UInt32.toNat_shiftRight, Nat.shiftRight_eq_div_pow]
    exact Nat.div_eq_zero_iff.trans (or_iff_right (by decide))
  unfold Date.ofDays
  split_ifs with hzero hlong hlong
  · exact absurd (hshift.mp hzero) (Nat.not_lt.mpr hlong)
  · rfl
  · rfl
  · exact absurd (hshift.mpr (Nat.lt_of_not_le hlong)) hzero

theorem DateTime2.encode_refused {dt : DateTime2} (htime : dt.time.Fits)
    (hdate : 2 ^ 24 ≤ dt.date.days.toNat) :
    ∃ width error, dt.time.len = .done [] width ∧ dt.encode.result = .error (.error error) := by
  obtain ⟨width, -, -, hlen, hencode, -⟩ := @Time.decode_reads .new dt.time htime
  rw [DateTime2.encode, hencode, Date.encode, if_pos hdate]
  exact ⟨width, _, hlen, rfl⟩

section

variable [EncodingRs] [StdLib]

/-- A conversion of a value whose (UTC) date is some day: the value that it gives goes
out with that day and is read back, or its encoding as a parameter fails with an error
if the day has no room. -/
def SendsDay (env : Context) (sent : Except Fault ColumnData) (day : ℤ) : Prop :=
  ∃ data, sent = .ok data ∧
    (DayFits day → RoundTrips env data ∧
      ∃ date, data.date? = some date ∧ (date.days.toNat : ℤ) = day) ∧
    (¬ DayFits day → ∃ error, (data.encode none).result = .error (.error error))

theorem not_sendsDay_error {env : Context} {fault : Fault} {day : ℤ} :
    ¬ SendsDay env (.error fault) day := by
  rintro ⟨data, hsent, -⟩
  cases hsent

section Refused

variable {dt : DateTime2} {date : Date}

theorem date_refused (hdate : 2 ^ 24 ≤ date.days.toNat) :
    ∃ error, ((ColumnData.date (some date)).encode none).result = .error (.error error) := by
  rw [ColumnData.encode, ColumnData.encodeUntyped, Date.encode, if_pos hdate]
  exact ⟨_, rfl⟩

theorem dateTime2_refused (htime : dt.time.Fits) (hdate : 2 ^ 24 ≤ dt.date.days.toNat) :
    ∃ error, ((ColumnData.dateTime2 (some dt)).encode none).result = .error (.error error) := by
  obtain ⟨width, error, hlen, hencode⟩ := DateTime2.encode_refused htime hdate
  rw [ColumnData.encode, ColumnData.encodeUntyped, hlen]
  exact ⟨error, hencode⟩

theorem dateTimeOffset_refused (offset : Int16) (htime : dt.time.Fits)
    (hdate : 2 ^ 24 ≤ dt.date.days.toNat) :
    ∃ error, ((ColumnData.dateTimeOffset (some { datetime2 := dt, offset := offset })).encode
      none).result = .error (.error error) := by
  obtain ⟨width, error, hlen, hencode⟩ := DateTime2.encode_refused htime hdate
  rw [ColumnData.encode, ColumnData.encodeUntyped, hlen]
  exact ⟨error, Written.result_bind_of_error hencode _⟩

end Refused

section Sends

variable {env : Context} {sent : Except Fault ColumnData} {day : ℤ}

/-- A value built with the wrapped number of its day is sent as that day or refused. -/
theorem sendsDay_of {data : ColumnData} (hsent : sent = .ok data)
    (hdate : data.date? = some (Date.ofDay day)) (hlow : -2 ^ 31 ≤ day) (hhigh : day < 2 ^ 31)
    (hback : (Date.ofDay day).days.toNat < 2 ^ 24 → RoundTrips env data)
    (hrefused : 2 ^ 24 ≤ (Date.ofDay day).days.toNat →
      ∃ error, (data.encode none).result = .error (.error error)) : SendsDay env sent day := by
  have hfits := Date.ofDay_fits_iff hlow hhigh
  refine ⟨data, hsent, ?_, ?_⟩
  · intro hday
    have hmod := Date.ofDay_mod day
    refine ⟨hback (hfits.mpr hday), _, hdate, ?_⟩
    unfold DayFits at hday
    omega
  · intro hday
    exact hrefused (Nat.le_of_not_lt fun hlt => hday (hfits.mp hlt))

theorem date_sendsDay (hsent : sent = .ok (.date (some (Date.ofDay day)))) (hlow : -2 ^ 31 ≤ day)
    (hhigh : day < 2 ^ 31) : SendsDay env sent day :=
  sendsDay_of hsent rfl hlow hhigh date_roundTrips date_refused

theorem dateTime2_sendsDay {time : Time} (htime : time.Fits)
    (hsent : sent = .ok (.dateTime2 (some { date := Date.ofDay day, time := time })))
    (hlow : -2 ^ 31 ≤ day) (hhigh : day < 2 ^ 31) : SendsDay env sent day :=
  sendsDay_of hsent rfl hlow hhigh (fun hdate => dateTime2_roundTrips htime hdate)
    fun hdate => dateTime2_refused htime hdate

theorem dateTimeOffset_sendsDay {time : Time} {offset : Int16} (htime : time.Fits)
    (hsent : sent = .ok (.dateTimeOffset
      (some { datetime2 := { date := Date.ofDay day, time := time }, offset := offset })))
    (hlow : -2 ^ 31 ≤ day) (hhigh : day < 2 ^ 31) : SendsDay env sent day :=
  sendsDay_of hsent rfl hlow hhigh (fun hdate => dateTimeOffset_roundTrips htime hdate)
    fun hdate => dateTimeOffset_refused offset htime hdate

end Sends

end

/-- A time in increments of 100 nanoseconds, of a day or a leap second behind it. -/
theorem Time.ofNanos_fits {nanos : ℕ} (hnanos : nanos < nanosPerDay + 10 ^ 9) :
    (Time.ofNanos nanos).Fits := by
  unfold nanosPerDay at hnanos
  have hincrements : (Time.ofNanos nanos).increments.toNat = nanos / 100 :=
    UInt64.toNat_ofNat_of_lt' (by show nanos / 100 < 2 ^ 64; omega)
  refine .inr (.inr ⟨⟨(by decide : (5 : UInt8) ≤ 7), UInt8.le_refl 7⟩, ?_⟩)
  rw [hincrements]
  omega

namespace Chrono

open ChronoCrate

variable [ChronoCrate]

theorem dayNumber_bounds (hranges : Ranges) (date : NaiveDate) :
    -2 ^ 31 ≤ dayNumber date ∧ dayNumber date < 2 ^ 31 := by
  have hdate := hranges.days date
  unfold InYears firstDay at hdate
  omega

theorem timeOf_fits (hexact : Exact) (hranges : Ranges) (time : NaiveTime) : (timeOf time).Fits := by
  apply Time.ofNanos_fits
  have hseconds := hexact.secondsLt time
  have hnanos := hranges.nanosecondLt time
  unfold nanosPerDay
  omega

variable [EncodingRs] [StdLib] (env : Context)

theorem naiveDate_sendsDay (hexact : Exact) (hranges : Ranges) (date : NaiveDate) :
    SendsDay env (NaiveDate.toSql date) (dayNumber date) := by
  obtain ⟨hlow, hhigh⟩ := dayNumber_bounds hranges date
  refine date_sendsDay ?_ hlow hhigh
  unfold NaiveDate.toSql
  rw [hexact.dateOf_eq]
  rfl

theorem naiveDateTime_sendsDay (hexact : Exact) (hranges : Ranges) (datetime : NaiveDateTime) :
    SendsDay env datetime.toSql (dayNumber datetime.date) := by
  obtain ⟨hlow, hhigh⟩ := dayNumber_bounds hranges datetime.date
  exact dateTime2_sendsDay (timeOf_fits hexact hranges datetime.time)
    (congrArg (Except.map fun dt => ColumnData.dateTime2 (some dt)) (hexact.dateTime2Of_eq datetime))
    hlow hhigh

theorem dateTimeFixedOffset_sendsDay (hexact : Exact) (hranges : Ranges)
    (datetime : DateTimeFixedOffset) :
    SendsDay env datetime.toSql (dayNumber datetime.naiveUtc.date) := by
  obtain ⟨hlow, hhigh⟩ := dayNumber_bounds hranges datetime.naiveUtc.date
  exact dateTimeOffset_sendsDay (timeOf_fits hexact hranges datetime.naiveUtc.time)
    (fixedOffset_toSql hexact datetime) hlow hhigh

end Chrono

namespace TimeCrate

variable [TimeCrate]

theorem dayNumber_bounds (hranges : Ranges) (date : Date) :
    -2 ^ 31 ≤ dayNumber date ∧ dayNumber date < 2 ^ 31 := by
  have hdate := hranges.days date
  unfold InYears firstDay at hdate
  omega

theorem ofNanos_fits (hexact : Exact) (time : Time) : (Time.ofNanos (nanosOfDay time)).Fits :=
  Time.ofNanos_fits (Nat.lt_add_right _ (hexact.nanosLt time))

/-- A date is counted, and the count asserted to have room. -/
theorem dateOf_cases (hexact : Exact) (hranges : Ranges) (date : Date) :
    (DayFits (dayNumber date) ∧ dateOf date = .ok (Date.ofDay (dayNumber date))) ∨
      (¬ DayFits (dayNumber date) ∧ dateOf date = .error .panic) := by
  obtain ⟨base, hbase, hfirst⟩ := hexact.firstOfYear 1 (by decide) (by decide)
  obtain ⟨hlow, hhigh⟩ := dayNumber_bounds hranges date
  have hzero : dayNumber base = 0 := hfirst
  have hcount : dateOf date = Date.ofDays (UInt32.ofInt (dayNumber date)) := by
    unfold dateOf toDays
    rw [hbase]
    change Date.ofDays (UInt32.ofInt (wholeDaysSince date base)) = _
    rw [hexact.wholeDays, hzero, Int.sub_zero]
  rw [hcount, Date.ofDays_eq, ← Date.ofDay_fits_iff hlow hhigh]
  split_ifs with hlong
  · exact .inr ⟨Nat.not_lt.mpr hlong, rfl⟩
  · exact .inl ⟨Nat.lt_of_not_le hlong, rfl⟩

/-- The day of a moment in UTC. -/
def OffsetDateTime.utcDay (datetime : OffsetDateTime) : ℤ :=
  OffsetDateTime.instant datetime / nanosPerDay

theorem utcDay_of_moved (hexact : Exact) {datetime other : OffsetDateTime}
    (hmoved : toOffset datetime utc = some other) :
    OffsetDateTime.utcDay datetime = dayNumber (date other) := by
  obtain ⟨hutc, hinstant⟩ := (hexact.change _ _ _).mp hmoved
  rw [dayNumber_date hexact, hutc, hinstant, hexact.utcSeconds, Int.zero_mul, Int.add_zero]
  rfl

theorem toOffset_utc_iff (hexact : Exact) (datetime : OffsetDateTime) :
    (∃ other, toOffset datetime utc = some other) ↔
      ∃ date, dayNumber date = OffsetDateTime.utcDay datetime := by
  rw [toOffset_iff hexact, hexact.utcSeconds, Int.zero_mul, Int.add_zero]
  rfl

variable [EncodingRs] [StdLib] (env : Context)

theorem date_sendsDay_iff (hexact : Exact) (hranges : Ranges) (date : Date) :
    SendsDay env (Date.toSql date) (dayNumber date) ↔ DayFits (dayNumber date) := by
  obtain ⟨hlow, hhigh⟩ := dayNumber_bounds hranges date
  unfold Date.toSql
  rcases dateOf_cases hexact hranges date with ⟨hfits, hdate⟩ | ⟨hlong, hdate⟩
  · rw [hdate]
    exact iff_of_true (date_sendsDay rfl hlow hhigh) hfits
  · rw [hdate]
    exact iff_of_false not_sendsDay_error hlong

theorem primitiveDateTime_sendsDay_iff (hexact : Exact) (hranges : Ranges)
    (datetime : PrimitiveDateTime) :
    SendsDay env datetime.toSql (dayNumber datetime.date) ↔ DayFits (dayNumber datetime.date) := by
  obtain ⟨hlow, hhigh⟩ := dayNumber_bounds hranges datetime.date
  unfold PrimitiveDateTime.toSql dateTime2Of
  rw [hexact.timeOf_eq]
  rcases dateOf_cases hexact hranges datetime.date with ⟨hfits, hdate⟩ | ⟨hlong, hdate⟩
  · rw [hdate]
    exact iff_of_true
      (dateTime2_sendsDay (ofNanos_fits hexact datetime.time) rfl hlow hhigh) hfits
  · rw [hdate]
    exact iff_of_false not_sendsDay_error hlong

theorem offsetDateTime_sendsDay_iff (hexact : Exact) (hranges : Ranges) (datetime : OffsetDateTime) :
    SendsDay env (OffsetDateTime.toSql datetime) (OffsetDateTime.utcDay datetime) ↔
      DayFits (OffsetDateTime.utcDay datetime) ∧
        ∃ date, dayNumber date = OffsetDateTime.utcDay datetime := by
  rw [← toOffset_utc_iff hexact]
  unfold OffsetDateTime.toSql
  cases hmoved : toOffset datetime utc with
  | none =>
    refine iff_of_false not_sendsDay_error ?_
    rintro ⟨-, other, hother⟩
    cases hother
  | some other =>
    have hday := utcDay_of_moved hexact hmoved
    obtain ⟨hlow, hhigh⟩ := dayNumber_bounds hranges (date other)
    have hsome : ∃ moved, some other = some moved := ⟨other, rfl⟩
    rw [hday, and_iff_left hsome]
    change SendsDay env (dateTime2Of (date other) (time other) >>= _) _ ↔ _
    unfold dateTime2Of
    rw [hexact.timeOf_eq]
    rcases dateOf_cases hexact hranges (date other) with ⟨hfits, hdate⟩ | ⟨hlong, hdate⟩
    · rw [hdate]
      exact iff_of_true
        (dateTimeOffset_sendsDay (ofNanos_fits hexact (time other)) rfl hlow hhigh) hfits
    · rw [hdate]
      exact iff_of_false not_sendsDay_error hlong

end TimeCrate

/-- Every value of `chrono` is sent as its day or refused by the encoder; those of
`time` exactly if their day has room, and is one of the crate's where the value is moved
to UTC first. -/
theorem sendsDay_iff [EncodingRs] [StdLib] [ChronoCrate] [TimeCrate] (hchrono : Chrono.Exact)
    (hchronoRanges : Chrono.Ranges) (htime : TimeCrate.Exact) (htimeRanges : TimeCrate.Ranges)
    (env : Context) :
    (∀ date : ChronoCrate.NaiveDate,
      SendsDay env (Chrono.NaiveDate.toSql date) (Chrono.dayNumber date) ∧
      SendsDay env (Chrono.NaiveDate.intoSql date) (Chrono.dayNumber date)) ∧
    (∀ datetime : Chrono.NaiveDateTime,
      SendsDay env datetime.toSql (Chrono.dayNumber datetime.date) ∧
      SendsDay env datetime.intoSql (Chrono.dayNumber datetime.date)) ∧
    (∀ datetime : Chrono.DateTimeUtc,
      SendsDay env datetime.toSql (Chrono.dayNumber datetime.naiveUtc.date) ∧
      SendsDay env datetime.intoSql (Chrono.dayNumber datetime.naiveUtc.date)) ∧
    (∀ datetime : Chrono.DateTimeFixedOffset,
      SendsDay env datetime.toSql (Chrono.dayNumber datetime.naiveUtc.date) ∧
      SendsDay env datetime.intoSql (Chrono.dayNumber datetime.naiveUtc.date)) ∧
    (∀ date : TimeCrate.Date,
      SendsDay env (TimeCrate.Date.toSql date) (TimeCrate.dayNumber date) ↔
        DayFits (TimeCrate.dayNumber date)) ∧
    (∀ datetime : TimeCrate.PrimitiveDateTime,
      SendsDay env datetime.toSql (TimeCrate.dayNumber datetime.date) ↔
        DayFits (TimeCrate.dayNumber datetime.date)) ∧
    ∀ datetime : TimeCrate.OffsetDateTime,
      SendsDay env (TimeCrate.OffsetDateTime.toSql datetime)
          (TimeCrate.OffsetDateTime.utcDay datetime) ↔
        DayFits (TimeCrate.OffsetDateTime.utcDay datetime) ∧
          ∃ date, TimeCrate.dayNumber date = TimeCrate.OffsetDateTime.utcDay datetime := by
  refine ⟨?_, ?_, ?_, ?_, ?_, ?_, ?_⟩
  · intro date
    have hsends := Chrono.naiveDate_sendsDay env hchrono hchronoRanges date
    exact ⟨hsends, hsends⟩
  · intro datetime
    have hsends := Chrono.naiveDateTime_sendsDay env hchrono hchronoRanges datetime
    exact ⟨hsends, hsends⟩
  · intro datetime
    have hsends := Chrono.naiveDateTime_sendsDay env hchrono hchronoRanges datetime.naiveUtc
    exact ⟨hsends, hsends⟩
  · intro datetime
    have hsends := Chrono.dateTimeFixedOffset_sendsDay env hchrono hchronoRanges datetime
    exact ⟨hsends, hsends⟩
  · exact TimeCrate.date_sendsDay_iff env htime htimeRanges
  · exact TimeCrate.primitiveDateTime_sendsDay_iff env htime htimeRanges
  · exact TimeCrate.offsetDateTime_sendsDay_iff env htime htimeRanges

/-- A date in the year 2024 of `chrono`, and one of `time`. -/
theorem sendsDay_iff_inRange :
    (@SendsDay .ascii .exact .new (@Chrono.NaiveDate.toSql .exact ⟨739000, by decide⟩) 739000 ∧
      @SendsDay .ascii .exact .new (@Chrono.NaiveDate.intoSql .exact ⟨739000, by decide⟩) 739000) ∧
    (@SendsDay .ascii .exact .new (@TimeCrate.Date.toSql .exact ⟨739000, by decide⟩) 739000 ↔
      DayFits 739000) := by
  have hall := @sendsDay_iff .ascii .exact .exact .exact Chrono.exact_isExact Chrono.exact_ranges
    TimeCrate.exact_isExact TimeCrate.exact_ranges .new
  have hchrono := hall.1 ⟨739000, by decide⟩
  have htime := hall.2.2.2.2.1 ⟨739000, by decide⟩
  rw [Chrono.exact_dayNumber] at hchrono
  rw [TimeCrate.exact_dayNumber] at htime
  exact ⟨hchrono, htime⟩

/-- The last day of year 0, as a value of `time`. -/
theorem sendsDay_panics :
    @TimeCrate.Date.toSql .exact ⟨-1, by decide⟩ = .error .panic ∧
      ¬ ∀ date : TimeCrate.exact.Date,
        @SendsDay .ascii .exact .new (@TimeCrate.Date.toSql .exact date)
          (@TimeCrate.dayNumber .exact date) := by
  refine ⟨rfl, ?_⟩
  intro hsends
  obtain ⟨data, hsent, -⟩ := hsends ⟨-1, by decide⟩
  cases hsent

end Tiberius
