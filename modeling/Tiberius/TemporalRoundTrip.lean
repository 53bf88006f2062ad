import Tiberius.Instants

/-!
A value of `chrono` or `time` that is sent as a parameter and read again. What
comes back is the same date, the same offset, and the time of day without the
nanoseconds that the wire has no room for.
-/

namespace Tiberius

open Calendar Reading

section

variable [EncodingRs] [StdLib] {α : Type}

/-- What is sent goes out without a column, is read back, and is converted to a value
that is as it should be. -/
def ComesBack (env : Context) (sent : Except Fault ColumnData)
    (fromSql : ColumnData → Except Fault (Option α)) (expected : α → Prop) : Prop :=
  ∃ data bytes received back, sent = .ok data ∧ data.encode none = .done bytes () ∧
    decodeTyped.run env bytes = .done received [] ∧ fromSql received = .ok (some back) ∧
      expected back

theorem comesBack_of {env : Context} {sent : Except Fault ColumnData}
    {fromSql : ColumnData → Except Fault (Option α)} {expected : α → Prop} {data : ColumnData}
    {back : α}
    (hsent : sent = .ok data) (hdata : RoundTrips env data) (hread : fromSql data = .ok (some back))
    (hback : expected back) : ComesBack env sent fromSql expected := by
  obtain ⟨bytes, hencode, hdecode⟩ := hdata
  exact ⟨data, bytes, data, back, hsent, hencode, hdecode, hread, hback⟩

end

/-- The `datetime2` that both crates write. -/
def DateTime2.ofParts (day : ℤ) (nanos : ℕ) : DateTime2 where
  date := Date.ofDay day
  time := Time.ofNanos nanos

section

variable [EncodingRs] [StdLib] {env : Context} {day : ℤ} {nanos : ℕ}

theorem ofDay_roundTrips (hday : InYears 1 9999 day) :
    RoundTrips env (.date (some (Date.ofDay day))) :=
  date_roundTrips (Date.ofDay_days hday).2

theorem ofNanos_roundTrips (hnanos : nanos < nanosPerDay) :
    RoundTrips env (.time (some (Time.ofNanos nanos))) :=
  time_roundTrips ((Time.ofNanos_inDay hnanos).fits rfl)

theorem ofParts_roundTrips (hday : InYears 1 9999 day) (hnanos : nanos < nanosPerDay) :
    RoundTrips env (.dateTime2 (some (DateTime2.ofParts day nanos))) :=
  dateTime2_roundTrips ((Time.ofNanos_inDay hnanos).fits rfl) (Date.ofDay_days hday).2

theorem ofParts_offset_roundTrips (offset : Int16) (hday : InYears 1 9999 day)
    (hnanos : nanos < nanosPerDay) :
    RoundTrips env (.dateTimeOffset
      (some { datetime2 := DateTime2.ofParts day nanos, offset := offset })) :=
  dateTimeOffset_roundTrips ((Time.ofNanos_inDay hnanos).fits rfl) (Date.ofDay_days hday).2

end

/-- The value that is sent for a date and time at an offset is a valid one. -/
theorem ofParts_valid {day : ℤ} {nanos : ℕ} {minutes : ℤ} (hday : InYears 1 9999 day)
    (hnanos : nanos < nanosPerDay) (hlow : -840 ≤ minutes) (hhigh : minutes ≤ 840) :
    ({ datetime2 := DateTime2.ofParts day nanos, offset := Int16.ofInt minutes } :
        DateTimeOffset).Valid 1 9999 ∧ (Int16.ofInt minutes).toInt = minutes := by
  have hminutes : (Int16.ofInt minutes).toInt = minutes :=
    Int16.toInt_ofInt_of_le (by omega) (by omega)
  refine ⟨⟨?_, Time.ofNanos_inDay hnanos, ?_, ?_⟩, hminutes⟩
  · change InYears 1 9999 ((Date.ofDay day).days.toNat : ℤ)
    rw [(Date.ofDay_days hday).1]
    exact hday
  · change -840 ≤ (Int16.ofInt minutes).toInt
    rw [hminutes]
    exact hlow
  · change (Int16.ofInt minutes).toInt ≤ 840
    rw [hminutes]
    exact hhigh

namespace Chrono

open ChronoCrate

section

variable [ChronoCrate]

/-- The time without what is below 100 nanoseconds. -/
def NaiveTime.Truncates (time back : NaiveTime) : Prop :=
  Regular back ∧ nanosOfDay back = nanosOfDay time / 100 * 100

def NaiveDateTime.Truncates (datetime back : NaiveDateTime) : Prop :=
  back.date = datetime.date ∧ NaiveTime.Truncates datetime.time back.time

/-- A `datetime2` that was written for a date and time is read as that date and the
truncated time. -/
theorem fromDateTime2_ofParts (hexact : Exact) {datetime : NaiveDateTime}
    (hdate : InYears 1 9999 (dayNumber datetime.date)) (htime : Regular datetime.time) :
    ∃ back, fromDateTime2 (.ofParts (dayNumber datetime.date) (nanosOfDay datetime.time)) =
        .ok back ∧
      datetime.Truncates back := by
  have hnanos := hexact.regular_lt htime
  have hdays := (Date.ofDay_days hdate).1
  have hyears : InYears 1 9999 ((Date.ofDay (dayNumber datetime.date)).days.toNat : ℤ) := by
    rw [hdays]
    exact hdate
  obtain ⟨back, hfrom, hregular, hday, hback⟩ :=
    @Exact.fromDateTime2_ok _ hexact (.ofParts (dayNumber datetime.date) (nanosOfDay datetime.time))
      hyears (Time.ofNanos_inDay hnanos)
  refine ⟨back, hfrom, hexact.dayNumber_inj (hday.trans hdays), hregular, ?_⟩
  exact hback.trans (Time.ofNanos_nanos hnanos)

variable [EncodingRs] [StdLib] {env : Context}

theorem naiveDate_comesBack (hexact : Exact) {date : NaiveDate}
    (hdate : InYears 1 9999 (dayNumber date)) :
    ComesBack env (NaiveDate.toSql date) NaiveDate.fromSql fun back => back = date := by
  have hsent : NaiveDate.toSql date = .ok (.date (some (Date.ofDay (dayNumber date)))) := by
    unfold NaiveDate.toSql
    rw [hexact.dateOf_eq]
    rfl
  refine comesBack_of hsent (ofDay_roundTrips hdate) ?_ rfl
  have hdays : fromDays (Date.ofDay (dayNumber date)).days.toNat 1 = .ok date := by
    refine hexact.fromDays_eq (by decide) (by decide) ?_
    rw [(Date.ofDay_days hdate).1]
    exact (Int.zero_add _).symm
  exact congrArg (Except.map some) hdays

theorem naiveTime_comesBack (hexact : Exact) {time : NaiveTime} (htime : Regular time) :
    ComesBack env (NaiveTime.toSql time) NaiveTime.fromSql (NaiveTime.Truncates time) := by
  have hnanos := hexact.regular_lt htime
  have hinDay := Time.ofNanos_inDay hnanos
  obtain ⟨back, hfrom, hregular, hback⟩ := hexact.fromNanos_ok hinDay.nanos_lt
  have hread : fromNanos (nanosFromIncrements (Time.ofNanos (nanosOfDay time)).increments
      (Time.ofNanos (nanosOfDay time)).scale) = .ok back := by
    rw [nanosFromIncrements_eq hinDay]
    exact hfrom
  refine comesBack_of rfl (ofNanos_roundTrips hnanos) (congrArg (Except.map some) hread) ?_
  exact ⟨hregular, hback.trans (Time.ofNanos_nanos hnanos)⟩

theorem naiveDateTime_comesBack (hexact : Exact) {datetime : NaiveDateTime}
    (hdate : InYears 1 9999 (dayNumber datetime.date)) (htime : Regular datetime.time) :
    ComesBack env datetime.toSql NaiveDateTime.fromSql datetime.Truncates := by
  obtain ⟨back, hfrom, hback⟩ := fromDateTime2_ofParts hexact hdate htime
  have hsent := congrArg (Except.map fun dt => ColumnData.dateTime2 (some dt))
    (hexact.dateTime2Of_eq datetime)
  exact comesBack_of hsent (ofParts_roundTrips hdate (hexact.regular_lt htime))
    (congrArg (Except.map some) hfrom) hback

theorem dateTimeUtc_comesBack (hexact : Exact) {datetime : DateTimeUtc}
    (hdate : InYears 1 9999 (dayNumber datetime.naiveUtc.date))
    (htime : Regular datetime.naiveUtc.time) :
    ComesBack env datetime.toSql DateTimeUtc.fromSql fun back =>
      datetime.naiveUtc.Truncates back.naiveUtc := by
  obtain ⟨back, hfrom, hback⟩ := fromDateTime2_ofParts hexact hdate htime
  have hsent := congrArg (Except.map fun dt => ColumnData.dateTime2 (some dt))
    (hexact.dateTime2Of_eq datetime.naiveUtc)
  have hread : (do
      let naive ← fromDateTime2
        (.ofParts (dayNumber datetime.naiveUtc.date) (nanosOfDay datetime.naiveUtc.time))
      .ok { naiveUtc := naive } : Except Fault DateTimeUtc) = .ok { naiveUtc := back } := by
    rw [hfrom]
    rfl
  exact comesBack_of hsent (ofParts_roundTrips hdate (hexact.regular_lt htime))
    (congrArg (Except.map some) hread) hback

theorem dateTimeFixedOffset_comesBack (hexact : Exact) {datetime : DateTimeFixedOffset}
    {minutes : ℤ}
    (hdate : InYears 1 9999 (dayNumber datetime.naiveUtc.date))
    (htime : Regular datetime.naiveUtc.time)
    (hoffset : localMinusUtc datetime.timezone = minutes * 60) (hlow : -840 ≤ minutes)
    (hhigh : minutes ≤ 840) :
    ComesBack env datetime.toSql DateTimeFixedOffset.fromSql fun back =>
      datetime.naiveUtc.Truncates back.naiveUtc ∧ back.timezone = datetime.timezone := by
  have hnanos := hexact.regular_lt htime
  obtain ⟨hvalid, hminutes⟩ := ofParts_valid hdate hnanos hlow hhigh
  obtain ⟨back, hread, hregular, hday, htimeBack, hzone⟩ := fixedOffset_fromSql hexact hvalid
  have hsent := fixedOffset_toSql hexact datetime
  rw [hoffset, Int.mul_tdiv_cancel _ (by decide)] at hsent
  refine comesBack_of hsent (ofParts_offset_roundTrips _ hdate hnanos) hread
    ⟨⟨?_, hregular, ?_⟩, ?_⟩
  · exact hexact.dayNumber_inj (hday.trans (Date.ofDay_days hdate).1)
  · exact htimeBack.trans (Time.ofNanos_nanos hnanos)
  · apply hexact.offsets
    rw [hzone, hoffset]
    change (Int16.ofInt minutes).toInt * 60 = _
    rw [hminutes]

end

end Chrono

namespace TimeCrate

section

variable [TimeCrate]

/-- The time without what is below 100 nanoseconds. -/
def Time.Truncates (time back : Time) : Prop := nanosOfDay back = nanosOfDay time / 100 * 100

def PrimitiveDateTime.Truncates (datetime back : PrimitiveDateTime) : Prop :=
  back.date = datetime.date ∧ Time.Truncates datetime.time back.time

/-- The same local date and the same offset, and the truncated time. -/
def OffsetDateTime.Truncates (datetime back : OffsetDateTime) : Prop :=
  date back = date datetime ∧ Time.Truncates (time datetime) (time back) ∧
    offset back = offset datetime

/-- An offset of whole minutes is a multiple of 100 nanoseconds, so it makes no
difference whether local time is truncated or UTC. -/
theorem exists_truncated (hexact : Exact) {datetime : OffsetDateTime} {day : ℤ} {nanos : ℕ}
    {minutes : ℤ} (hoffset : wholeSeconds (offset datetime) = minutes * 60)
    (hinstant : OffsetDateTime.instant datetime = Calendar.instant day nanos) :
    ∃ back, OffsetDateTime.Truncates datetime back ∧
      OffsetDateTime.instant back = Calendar.instant day (nanos / 100 * 100) := by
  have hlt := hexact.nanosLt (time datetime)
  obtain ⟨t, ht⟩ := @Exact.exists_time _ hexact (nanosOfDay (time datetime) / 100 * 100)
    (Nat.lt_of_le_of_lt (Nat.div_mul_le_self _ _) hlt)
  obtain ⟨back, hdate, htime, hzone⟩ := hexact.values (date datetime) t (offset datetime)
  refine ⟨back, ⟨hdate, ?_, hzone⟩, ?_⟩
  · change nanosOfDay (time back) = _
    rw [htime, ht]
  · rw [OffsetDateTime.instant, hoffset] at hinstant
    rw [OffsetDateTime.instant, hdate, htime, hzone, hoffset, ht]
    unfold Calendar.instant nanosPerDay at *
    omega

theorem fromNanos_ofNanos (hexact : Exact) (time : Time) :
    ∃ back, fromNanos (nanosFromIncrements (Time.ofNanos (nanosOfDay time)).increments
      (Time.ofNanos (nanosOfDay time)).scale) = .ok back ∧ Time.Truncates time back := by
  have hnanos := hexact.nanosLt time
  have hinDay := Time.ofNanos_inDay hnanos
  obtain ⟨back, hback⟩ := hexact.exists_time hinDay.nanos_lt
  have heq : nanosFromIncrements (Time.ofNanos (nanosOfDay time)).increments
      (Time.ofNanos (nanosOfDay time)).scale = (Time.ofNanos (nanosOfDay time)).nanos :=
    hinDay.saturatingMul_eq
  refine ⟨back, ?_, hback.trans (Time.ofNanos_nanos hnanos)⟩
  rw [heq]
  exact hexact.fromNanos_eq hback

theorem fromDays_ofDay (hexact : Exact) {date : Date} (hdate : InYears 1 9999 (dayNumber date)) :
    fromDays (Date.ofDay (dayNumber date)).days.toNat 1 = .ok date := by
  refine hexact.fromDays_eq (by decide) (by decide) ?_
  rw [(Date.ofDay_days hdate).1]
  exact (Int.zero_add _).symm

variable [EncodingRs] [StdLib] {env : Context}

theorem date_comesBack (hexact : Exact) {date : Date} (hdate : InYears 1 9999 (dayNumber date)) :
    ComesBack env (Date.toSql date) Date.fromSql fun back => back = date :=
  comesBack_of (congrArg (Except.map fun date => ColumnData.date (some date))
    (hexact.dateOf_eq hdate))
    (ofDay_roundTrips hdate) (congrArg (Except.map some) (fromDays_ofDay hexact hdate)) rfl

theorem time_comesBack (hexact : Exact) (time : Time) :
    ComesBack env (Time.toSql time) Time.fromSql (Time.Truncates time) := by
  obtain ⟨back, hread, hback⟩ := fromNanos_ofNanos hexact time
  exact comesBack_of (congrArg (Except.map fun time => ColumnData.time (some time))
    (hexact.timeOf_eq time))
    (ofNanos_roundTrips (hexact.nanosLt time)) (congrArg (Except.map some) hread) hback

theorem primitiveDateTime_comesBack (hexact : Exact) {datetime : PrimitiveDateTime}
    (hdate : InYears 1 9999 (dayNumber datetime.date)) :
    ComesBack env datetime.toSql PrimitiveDateTime.fromSql datetime.Truncates := by
  obtain ⟨back, htime, hback⟩ := fromNanos_ofNanos hexact datetime.time
  have hsent := congrArg (Except.map fun dt => ColumnData.dateTime2 (some dt))
    (hexact.dateTime2Of_eq datetime.time hdate)
  have hread : (do
      let date ← fromDays (Date.ofDay (dayNumber datetime.date)).days.toNat 1
      let time ← fromNanos (nanosFromIncrements (Time.ofNanos (nanosOfDay datetime.time)).increments
        (Time.ofNanos (nanosOfDay datetime.time)).scale)
      .ok { date := date, time := time } : Except Fault PrimitiveDateTime) =
      .ok { date := datetime.date, time := back } := by
    rw [fromDays_ofDay hexact hdate, htime]
    rfl
  exact comesBack_of hsent (ofParts_roundTrips hdate (hexact.nanosLt datetime.time))
    (congrArg (Except.map some) hread) ⟨rfl, hback⟩

theorem offsetDateTime_comesBack (hexact : Exact) {datetime : OffsetDateTime} {minutes : ℤ}
    (hdate : InYears 1 9999 (OffsetDateTime.instant datetime / nanosPerDay))
    (hoffset : wholeSeconds (offset datetime) = minutes * 60) (hlow : -840 ≤ minutes)
    (hhigh : minutes ≤ 840) :
    ComesBack env (OffsetDateTime.toSql datetime) OffsetDateTime.fromSql
      (OffsetDateTime.Truncates datetime) := by
  obtain ⟨day, nanos, hnanos, hmoment⟩ := exists_instant (OffsetDateTime.instant datetime)
  have hday : OffsetDateTime.instant datetime / nanosPerDay = day := by
    rw [← hmoment]
    unfold Calendar.instant nanosPerDay at *
    omega
  rw [hday] at hdate
  obtain ⟨back, hback, hinstant⟩ := exists_truncated hexact hoffset hmoment.symm
  obtain ⟨hvalid, hminutes⟩ := ofParts_valid hdate hnanos hlow hhigh
  have hsent := offsetDateTime_toSql hexact hdate hnanos hmoment.symm
  rw [hoffset, Int.mul_tdiv_cancel _ (by decide)] at hsent
  refine comesBack_of hsent (ofParts_offset_roundTrips _ hdate hnanos)
    (offsetDateTime_fromSql hexact hvalid ?_ ?_) hback
  · rw [hback.2.2, hoffset]
    change _ = (Int16.ofInt minutes).toInt * 60
    rw [hminutes]
  · rw [hinstant]
    change _ = Calendar.instant ((Date.ofDay day).days.toNat : ℤ) (Time.ofNanos nanos).nanos
    rw [(Date.ofDay_days hdate).1, Time.ofNanos_nanos hnanos]

end

end TimeCrate

section

variable [EncodingRs] [StdLib] [ChronoCrate] [TimeCrate]

/-- Every date and time of either crate, of a year that SQL Server has, comes back
from the wire with its time truncated to 100 nanoseconds. -/
theorem temporal_values_come_back (hchrono : Chrono.Exact) (htime : TimeCrate.Exact)
    (env : Context) :
    (∀ date : ChronoCrate.NaiveDate, InYears 1 9999 (Chrono.dayNumber date) →
      ∀ sent ∈ [Chrono.NaiveDate.toSql date, Chrono.NaiveDate.intoSql date],
        ComesBack env sent Chrono.NaiveDate.fromSql fun back => back = date) ∧
    (∀ time : ChronoCrate.NaiveTime, Chrono.Regular time →
      ∀ sent ∈ [Chrono.NaiveTime.toSql time, Chrono.NaiveTime.intoSql time],
        ComesBack env sent Chrono.NaiveTime.fromSql (Chrono.NaiveTime.Truncates time)) ∧
    (∀ datetime : Chrono.NaiveDateTime, InYears 1 9999 (Chrono.dayNumber datetime.date) →
      Chrono.Regular datetime.time → ∀ sent ∈ [datetime.toSql, datetime.intoSql],
        ComesBack env sent Chrono.NaiveDateTime.fromSql datetime.Truncates) ∧
    (∀ datetime : Chrono.DateTimeUtc, InYears 1 9999 (Chrono.dayNumber datetime.naiveUtc.date) →
      Chrono.Regular datetime.naiveUtc.time → ∀ sent ∈ [datetime.toSql, datetime.intoSql],
        ComesBack env sent Chrono.DateTimeUtc.fromSql fun back =>
          datetime.naiveUtc.Truncates back.naiveUtc) ∧
    (∀ (datetime : Chrono.DateTimeFixedOffset) (minutes : ℤ),
      InYears 1 9999 (Chrono.dayNumber datetime.naiveUtc.date) →
      Chrono.Regular datetime.naiveUtc.time →
      ChronoCrate.localMinusUtc datetime.timezone = minutes * 60 → -840 ≤ minutes → minutes ≤ 840 →
      ∀ sent ∈ [datetime.toSql, datetime.intoSql],
        ComesBack env sent Chrono.DateTimeFixedOffset.fromSql fun back =>
          datetime.naiveUtc.Truncates back.naiveUtc ∧ back.timezone = datetime.timezone) ∧
    (∀ date : TimeCrate.Date, InYears 1 9999 (TimeCrate.dayNumber date) →
      ComesBack env (TimeCrate.Date.toSql date) TimeCrate.Date.fromSql fun back => back = date) ∧
    (∀ time : TimeCrate.Time,
      ComesBack env (TimeCrate.Time.toSql time) TimeCrate.Time.fromSql
        (TimeCrate.Time.Truncates time)) ∧
    (∀ datetime : TimeCrate.PrimitiveDateTime, InYears 1 9999 (TimeCrate.dayNumber datetime.date) →
      ComesBack env datetime.toSql TimeCrate.PrimitiveDateTime.fromSql datetime.Truncates) ∧
    ∀ (datetime : TimeCrate.OffsetDateTime) (minutes : ℤ),
      InYears 1 9999 (TimeCrate.OffsetDateTime.instant datetime / nanosPerDay) →
      TimeCrate.wholeSeconds (TimeCrate.offset datetime) = minutes * 60 → -840 ≤ minutes →
      minutes ≤ 840 →
        ComesBack env (TimeCrate.OffsetDateTime.toSql datetime) TimeCrate.OffsetDateTime.fromSql
          (TimeCrate.OffsetDateTime.Truncates datetime) := by
  -- `into_sql` computes what `to_sql` does, so both are one value twice.
  have htwice : ∀ {α : Type} {sent : Except Fault ColumnData}
      {fromSql : ColumnData → Except Fault (Option α)} {expected : α → Prop},
      ComesBack env sent fromSql expected →
        ∀ other ∈ [sent, sent], ComesBack env other fromSql expected := by
    intro α sent fromSql expected hback other hother
    rcases List.mem_pair.mp hother with rfl | rfl
    · exact hback
    · exact hback
  refine ⟨?_, ?_, ?_, ?_, ?_, ?_, ?_, ?_, ?_⟩
  · intro date hdate
    exact htwice (Chrono.naiveDate_comesBack hchrono hdate)
  · intro time hregular
    exact htwice (Chrono.naiveTime_comesBack hchrono hregular)
  · intro datetime hdate hregular
    exact htwice (Chrono.naiveDateTime_comesBack hchrono hdate hregular)
  · intro datetime hdate hregular
    exact htwice (Chrono.dateTimeUtc_comesBack hchrono hdate hregular)
  · intro datetime minutes hdate hregular hoffset hlow hhigh
    exact htwice
      (Chrono.dateTimeFixedOffset_comesBack hchrono hdate hregular hoffset hlow hhigh)
  · intro date hdate
    exact TimeCrate.date_comesBack htime hdate
  · intro time
    exact TimeCrate.time_comesBack htime time
  · intro datetime hdate
    exact TimeCrate.primitiveDateTime_comesBack htime hdate
  · intro datetime minutes hdate hoffset hlow hhigh
    exact TimeCrate.offsetDateTime_comesBack htime hdate hoffset hlow hhigh

end

/-- An hour past midnight of the first of January of year 1, two hours west of UTC,
and 150 nanoseconds. -/
theorem temporal_values_come_back_west :
    @ComesBack .ascii .exact _ .new
      (@TimeCrate.OffsetDateTime.toSql .exact
        (⟨0, by decide⟩, ⟨3600000000150, by decide⟩, ⟨-7200, by decide⟩))
      (@TimeCrate.OffsetDateTime.fromSql .exact .exact)
      (@TimeCrate.OffsetDateTime.Truncates .exact
        (⟨0, by decide⟩, ⟨3600000000150, by decide⟩, ⟨-7200, by decide⟩)) := by
  have hall := @temporal_values_come_back .ascii .exact .exact .exact Chrono.exact_isExact
    TimeCrate.exact_isExact .new
  refine hall.2.2.2.2.2.2.2.2 _ (-120) ?_ rfl (by decide) (by decide)
  rw [TimeCrate.exact_instant]
  decide

end Tiberius
