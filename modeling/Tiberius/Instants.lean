import Tiberius.Chrono
import Tiberius.TimeCrate

/-!
The instants that the values of the two crates stand for, on the wire and on both
sides of it. A `datetimeoffset` is UTC on the wire with the offset beside it. Two
of the three readers take it so, as do both writers; the reader of `DateTime<Utc>`
takes it for local time and subtracts the offset once more.
-/

namespace Tiberius

open Calendar

theorem Date.ofDay_toNat (date : Date) : Date.ofDay date.days.toNat = date := by
  have hlt := date.days.toNat_lt
  have hmod : ((date.days.toNat : ℤ) % 2 ^ 32).toNat = date.days.toNat := by omega
  unfold Date.ofDay UInt32.ofInt
  rw [hmod, UInt32.ofNat_toNat]

theorem offset_minutes (minutes : Int16) :
    Int16.ofInt ((minutes.toInt * 60).tdiv 60) = minutes := by
  rw [Int.mul_tdiv_cancel _ (by decide), Int16.ofInt_toInt]

namespace DateTimeOffset

def instant (dto : DateTimeOffset) : ℤ :=
  Calendar.instant dto.datetime2.date.days.toNat dto.datetime2.time.nanos

/-- A value with a time of day below 24 hours and an offset of at most 14 hours. -/
structure Valid (first last : ℤ) (dto : DateTimeOffset) : Prop where
  date : InYears first last dto.datetime2.date.days.toNat
  time : dto.datetime2.time.InDay
  offset_ge : -840 ≤ dto.offset.toInt
  offset_le : dto.offset.toInt ≤ 840

def atScale7 (dto : DateTimeOffset) : DateTimeOffset where
  datetime2 :=
    { date := dto.datetime2.date, time := Time.ofNanos dto.datetime2.time.nanos }
  offset := dto.offset

end DateTimeOffset

namespace Chrono

open ChronoCrate

theorem validateOffsetMinutes_eq {dto : DateTimeOffset} {first last : ℤ}
    (hdto : dto.Valid first last) :
    validateOffsetMinutes dto.offset = .ok dto.offset.toInt :=
  if_pos ⟨hdto.offset_ge, hdto.offset_le⟩

section

variable [ChronoCrate]

theorem fixedOffset_toSql (hexact : Exact) (datetime : DateTimeFixedOffset) :
    datetime.toSql = .ok (.dateTimeOffset (some
      { datetime2 :=
          { date := Date.ofDay (dayNumber datetime.naiveUtc.date)
            time := Time.ofNanos (nanosOfDay datetime.naiveUtc.time) }
        offset := Int16.ofInt ((localMinusUtc datetime.timezone).tdiv 60) })) := by
  unfold DateTimeFixedOffset.toSql
  rw [hexact.dateTime2Of_eq]
  rfl

variable [StdLib]

/-- The time on the wire is taken for UTC, and the offset is kept beside it. -/
theorem fixedOffset_fromSql (hexact : Exact) {dto : DateTimeOffset} (hdto : dto.Valid 1 9999) :
    ∃ fixed : DateTimeFixedOffset,
      DateTimeFixedOffset.fromSql (.dateTimeOffset (some dto)) = .ok (some fixed) ∧
        Regular fixed.naiveUtc.time ∧
        dayNumber fixed.naiveUtc.date = dto.datetime2.date.days.toNat ∧
        nanosOfDay fixed.naiveUtc.time = dto.datetime2.time.nanos ∧
        localMinusUtc fixed.timezone = dto.offset.toInt * 60 := by
  obtain ⟨naive, hnaive, hregular, hday, hnanos⟩ := hexact.fromDateTime2_ok hdto.date hdto.time
  have hlow := hdto.offset_ge
  have hhigh := hdto.offset_le
  obtain ⟨zone, hzone, hseconds⟩ :=
    hexact.east (dto.offset.toInt * 60) (by omega) (by omega)
  refine ⟨{ naiveUtc := naive, timezone := zone }, ?_, hregular, hday, hnanos, hseconds⟩
  have hconvert : (do
      let naive ← fromDateTime2 dto.datetime2
      let minutes ← validateOffsetMinutes dto.offset
      let offset ← orProtocol "datetimeoffset offset is not representable" (eastOpt (minutes * 60))
      .ok { naiveUtc := naive, timezone := offset } : Except Fault DateTimeFixedOffset) =
      .ok { naiveUtc := naive, timezone := zone } := by
    rw [hnaive, validateOffsetMinutes_eq hdto]
    change (orProtocol _ (eastOpt (dto.offset.toInt * 60)) >>= _) = _
    rw [hzone]
    rfl
  exact congrArg (Except.map some) hconvert

/-- The time on the wire is taken for local time, and the offset is subtracted. -/
theorem utc_fromSql (hexact : Exact) {dto : DateTimeOffset} (hdto : dto.Valid 2 9998) :
    ∃ utc : DateTimeUtc, DateTimeUtc.fromSql (.dateTimeOffset (some dto)) = .ok (some utc) ∧
      utc.instant = dto.instant - dto.offset.toInt * 60 * 10 ^ 9 := by
  have hdate := hdto.date
  have hyears : InYears 1 9999 dto.datetime2.date.days.toNat := by
    unfold InYears firstDay at *
    omega
  obtain ⟨naive, hnaive, hregular, hday, hnanos⟩ := hexact.fromDateTime2_ok hyears hdto.time
  have hlow := hdto.offset_ge
  have hhigh := hdto.offset_le
  obtain ⟨day, nanos, hlt, hmoment⟩ :=
    exists_instant (dto.instant + -(dto.offset.toInt * 60 * 10 ^ 9))
  have hnear := day_of_shift hdto.time.nanos_lt hlt (by unfold nanosPerDay; omega)
    (by unfold nanosPerDay; omega) hmoment
  obtain ⟨date, hdate'⟩ := hexact.dates day (by unfold InYears firstDay at *; omega)
  obtain ⟨time, -, htime, hnanos'⟩ := hexact.fromNanos_ok hlt
  have hsub : checkedSubMinutes naive.date naive.time dto.offset.toInt = some (date, time) := by
    rw [hexact.subMinutes _ _ _ _ _ hregular, hdate', hnanos', hday, hnanos]
    exact ⟨htime, hmoment⟩
  refine ⟨{ naiveUtc := { date := date, time := time } }, ?_, ?_⟩
  · have hconvert : (do
        let base ← fromDateTime2 dto.datetime2
        let minutes ← validateOffsetMinutes dto.offset
        let naive ← orProtocol "datetimeoffset value is out of the representable range"
          (checkedSubMinutes base.date base.time minutes)
        .ok { naiveUtc := { date := naive.1, time := naive.2 } } : Except Fault DateTimeUtc) =
        .ok { naiveUtc := { date := date, time := time } } := by
      rw [hnaive, validateOffsetMinutes_eq hdto]
      change (orProtocol _ (checkedSubMinutes naive.date naive.time dto.offset.toInt) >>= _) = _
      rw [hsub]
      rfl
    exact congrArg (Except.map some) hconvert
  · change Calendar.instant (dayNumber date) (nanosOfDay time) = _
    rw [hdate', hnanos']
    exact hmoment

end

end Chrono

namespace TimeCrate

section

variable [TimeCrate]

theorem dayNumber_date (hexact : Exact) (datetime : OffsetDateTime) :
    dayNumber (date datetime) =
      (OffsetDateTime.instant datetime + wholeSeconds (offset datetime) * 10 ^ 9) / nanosPerDay := by
  have hlt := hexact.nanosLt (time datetime)
  unfold OffsetDateTime.instant Calendar.instant
  unfold nanosPerDay at *
  omega

/-- A value can be moved to an offset exactly if there is a date for its day there. -/
theorem toOffset_iff (hexact : Exact) (datetime : OffsetDateTime) (zone : UtcOffset) :
    (∃ other, toOffset datetime zone = some other) ↔ ∃ date, dayNumber date =
      (OffsetDateTime.instant datetime + wholeSeconds zone * 10 ^ 9) / nanosPerDay := by
  constructor
  · rintro ⟨other, hmoved⟩
    obtain ⟨hzone, hinstant⟩ := (hexact.change _ _ _).mp hmoved
    refine ⟨date other, ?_⟩
    rw [dayNumber_date hexact, hzone, hinstant]
  · rintro ⟨d, hd⟩
    obtain ⟨day, nanos, hnanos, hmoment⟩ :=
      exists_instant (OffsetDateTime.instant datetime + wholeSeconds zone * 10 ^ 9)
    obtain ⟨t, ht⟩ := hexact.exists_time hnanos
    obtain ⟨other, hdate, htime, hzone⟩ := hexact.values d t zone
    refine ⟨other, (hexact.change _ _ _).mpr ⟨hzone, ?_⟩⟩
    rw [OffsetDateTime.instant, hdate, htime, hzone, hd, ht]
    unfold Calendar.instant nanosPerDay at *
    omega

theorem offsetDateTime_toSql (hexact : Exact) {datetime : OffsetDateTime} {day : ℤ} {nanos : ℕ}
    (hday : InYears 1 9999 day) (hnanos : nanos < nanosPerDay)
    (hinstant : OffsetDateTime.instant datetime = Calendar.instant day nanos) :
    OffsetDateTime.toSql datetime = .ok (.dateTimeOffset (some
      { datetime2 := { date := Date.ofDay day, time := Time.ofNanos nanos }
        offset := Int16.ofInt ((wholeSeconds (offset datetime)).tdiv 60) })) := by
  obtain ⟨d, hd⟩ := hexact.dates day hday
  obtain ⟨t, ht⟩ := hexact.exists_time hnanos
  obtain ⟨hdate, htime, hutc⟩ := hexact.assumed d t
  have hmoved : toOffset datetime utc = some (assumeUtc d t) := by
    rw [hexact.change]
    refine ⟨hutc, ?_⟩
    rw [hinstant, OffsetDateTime.instant, hdate, htime, hutc, hd, ht, hexact.utcSeconds]
    omega
  unfold OffsetDateTime.toSql
  rw [hmoved]
  change (dateTime2Of (date (assumeUtc d t)) (time (assumeUtc d t)) >>= _) = _
  rw [hdate, htime, hexact.dateTime2Of_eq t (hd ▸ hday), hd, ht]
  rfl

/-- The value that stands for a `datetimeoffset`, while its local date is in range. -/
theorem exists_offsetDateTime (hexact : Exact) {dto : DateTimeOffset} (hdto : dto.Valid 2 9998) :
    ∃ datetime : OffsetDateTime, wholeSeconds (offset datetime) = dto.offset.toInt * 60 ∧
      OffsetDateTime.instant datetime = dto.instant := by
  have hdate := hdto.date
  have hlow := hdto.offset_ge
  have hhigh := hdto.offset_le
  obtain ⟨day, nanos, hlt, hmoment⟩ := exists_instant (dto.instant + dto.offset.toInt * 60 * 10 ^ 9)
  have hnear := day_of_shift hdto.time.nanos_lt hlt (by unfold nanosPerDay; omega)
    (by unfold nanosPerDay; omega) hmoment
  obtain ⟨d, hd⟩ := hexact.dates day (by unfold InYears firstDay at *; omega)
  obtain ⟨t, ht⟩ := hexact.exists_time hlt
  obtain ⟨zone, -, hseconds⟩ :=
    hexact.fromWholeSeconds (dto.offset.toInt * 60) (by omega) (by omega)
  obtain ⟨datetime, hdatetime, htime, hoffset⟩ := hexact.values d t zone
  refine ⟨datetime, by rw [hoffset, hseconds], ?_⟩
  rw [OffsetDateTime.instant, hdatetime, htime, hoffset, hd, ht, hseconds, hmoment]
  omega

variable [StdLib]

theorem offsetDateTime_fromSql (hexact : Exact) {dto : DateTimeOffset} (hdto : dto.Valid 1 9999)
    {datetime : OffsetDateTime} (hoffset : wholeSeconds (offset datetime) = dto.offset.toInt * 60)
    (hinstant : OffsetDateTime.instant datetime = dto.instant) :
    OffsetDateTime.fromSql (.dateTimeOffset (some dto)) = .ok (some datetime) := by
  obtain ⟨d, hd⟩ := hexact.dates _ hdto.date
  obtain ⟨t, ht⟩ := hexact.exists_time hdto.time.nanos_lt
  obtain ⟨hdate, htime, hutc⟩ := hexact.assumed d t
  have hlow := hdto.offset_ge
  have hhigh := hdto.offset_le
  obtain ⟨zone, hzone, hseconds⟩ :=
    hexact.fromWholeSeconds (dto.offset.toInt * 60) (by omega) (by omega)
  have hsame : offset datetime = zone := hexact.offsets _ _ (hoffset.trans hseconds.symm)
  have hmoved : toOffset (assumeUtc d t) zone = some datetime := by
    rw [hexact.change]
    refine ⟨hsame, hinstant.trans ?_⟩
    rw [OffsetDateTime.instant, hdate, htime, hutc, hd, ht, hexact.utcSeconds]
    exact (Int.sub_zero _).symm
  have hdays : fromDays dto.datetime2.date.days.toNat 1 = .ok d :=
    hexact.fromDays_eq (by decide) (by decide) (by rw [hd]; exact (Int.zero_add _).symm)
  have hnanos : nanosFromIncrements dto.datetime2.time.increments dto.datetime2.time.scale =
      dto.datetime2.time.nanos := hdto.time.saturatingMul_eq
  have hconvert : (do
      let date ← fromDays dto.datetime2.date.days.toNat 1
      let time ← fromNanos
        (nanosFromIncrements dto.datetime2.time.increments dto.datetime2.time.scale)
      let offset ← offsetFromMinutes dto.offset
      unwrap (toOffset (assumeUtc date time) offset) : Except Fault OffsetDateTime) =
      .ok datetime := by
    rw [hdays, hnanos, hexact.fromNanos_eq ht, offsetFromMinutes, if_pos ⟨hlow, hhigh⟩, hzone]
    change unwrap (toOffset (assumeUtc d t) zone) = _
    rw [hmoved]
    rfl
  exact congrArg (Except.map some) hconvert

end

end TimeCrate

section

variable [ChronoCrate] [TimeCrate] [StdLib]

/-- The three readers take the value for one instant, and both writers turn that
instant into the value again. -/
def DateTimeOffset.ReadersAgree (dto : DateTimeOffset) : Prop :=
  ∃ utc fixed datetime,
    Chrono.DateTimeUtc.fromSql (.dateTimeOffset (some dto)) = .ok (some utc) ∧
      Chrono.DateTimeFixedOffset.fromSql (.dateTimeOffset (some dto)) = .ok (some fixed) ∧
      TimeCrate.OffsetDateTime.fromSql (.dateTimeOffset (some dto)) = .ok (some datetime) ∧
      utc.instant = fixed.instant ∧
      TimeCrate.OffsetDateTime.instant datetime = fixed.instant ∧
      fixed.toSql = .ok (.dateTimeOffset (some dto.atScale7)) ∧
      TimeCrate.OffsetDateTime.toSql datetime = .ok (.dateTimeOffset (some dto.atScale7))

theorem DateTimeOffset.readers (hchrono : Chrono.Exact) (htime : TimeCrate.Exact)
    {dto : DateTimeOffset} (hdto : dto.Valid 2 9998) :
    ∃ utc fixed datetime,
      Chrono.DateTimeUtc.fromSql (.dateTimeOffset (some dto)) = .ok (some utc) ∧
        Chrono.DateTimeFixedOffset.fromSql (.dateTimeOffset (some dto)) = .ok (some fixed) ∧
        TimeCrate.OffsetDateTime.fromSql (.dateTimeOffset (some dto)) = .ok (some datetime) ∧
        utc.instant = dto.instant - dto.offset.toInt * 60 * 10 ^ 9 ∧
        fixed.instant = dto.instant ∧ TimeCrate.OffsetDateTime.instant datetime = dto.instant ∧
        fixed.toSql = .ok (.dateTimeOffset (some dto.atScale7)) ∧
        TimeCrate.OffsetDateTime.toSql datetime = .ok (.dateTimeOffset (some dto.atScale7)) := by
  have hdate := hdto.date
  have hyears : InYears 1 9999 dto.datetime2.date.days.toNat := by
    unfold InYears firstDay at *
    omega
  have hvalid : dto.Valid 1 9999 := { hdto with date := hyears }
  obtain ⟨utc, hutc, hshifted⟩ := Chrono.utc_fromSql hchrono hdto
  obtain ⟨fixed, hfixed, -, hday, hnanos, hzone⟩ := Chrono.fixedOffset_fromSql hchrono hvalid
  obtain ⟨datetime, hoffset, hinstant⟩ := TimeCrate.exists_offsetDateTime htime hdto
  refine ⟨utc, fixed, datetime, hutc, hfixed,
    TimeCrate.offsetDateTime_fromSql htime hvalid hoffset hinstant, hshifted, ?_, hinstant, ?_, ?_⟩
  · change Calendar.instant (Chrono.dayNumber _) (Chrono.nanosOfDay _) = _
    rw [hday, hnanos]
    rfl
  · rw [Chrono.fixedOffset_toSql hchrono, hday, hnanos, hzone, Date.ofDay_toNat, offset_minutes]
    rfl
  · rw [TimeCrate.offsetDateTime_toSql htime hyears hdto.time.nanos_lt hinstant, hoffset,
      Date.ofDay_toNat, offset_minutes]
    rfl

/-- The reader of `DateTime<Utc>` subtracts the offset, and the other two do not. -/
theorem DateTimeOffset.ReadersAgree.offset_eq_zero (hchrono : Chrono.Exact)
    (htime : TimeCrate.Exact)
    {dto : DateTimeOffset} (hdto : dto.Valid 2 9998) (hagree : dto.ReadersAgree) :
    dto.offset = 0 := by
  obtain ⟨utc, fixed, _, hutc, hfixed, -, hshifted, hinstant, -⟩ :=
    DateTimeOffset.readers hchrono htime hdto
  obtain ⟨utc', fixed', _, hutc', hfixed', -, hsame, -⟩ := hagree
  rw [hutc] at hutc'
  rw [hfixed] at hfixed'
  cases hutc'
  cases hfixed'
  apply Int16.toInt_inj.mp
  change dto.offset.toInt = 0
  omega

/-- The readers agree on the values in UTC and on no others. -/
theorem DateTimeOffset.readers_agree_iff (hchrono : Chrono.Exact) (htime : TimeCrate.Exact)
    {dto : DateTimeOffset} (hdto : dto.Valid 2 9998) : dto.ReadersAgree ↔ dto.offset = 0 := by
  constructor
  · exact fun hagree => hagree.offset_eq_zero hchrono htime hdto
  · intro hzero
    obtain ⟨utc, fixed, datetime, hutc, hfixed, hdatetime, hshifted, hinstant, hsame, hwrites⟩ :=
      DateTimeOffset.readers hchrono htime hdto
    refine ⟨utc, fixed, datetime, hutc, hfixed, hdatetime, ?_, ?_, hwrites⟩
    · rw [hshifted, hinstant, hzero]
      exact Int.sub_zero _
    · rw [hsame, hinstant]

end

/-- Noon of the fourth of March 2015 in UTC, with an offset. -/
def DateTimeOffset.noon (offset : Int16) : DateTimeOffset where
  datetime2 := { date := { days := 735660 }, time := { increments := 432000000000, scale := 7 } }
  offset := offset

theorem DateTimeOffset.noon_valid {offset : Int16} (hlow : -840 ≤ offset.toInt)
    (hhigh : offset.toInt ≤ 840) : (noon offset).Valid 2 9998 where
  date := show InYears 2 9998 735660 by decide
  time := ⟨show (7 : UInt8) ≤ 7 by decide, show 432000000000 < 86400 * 10 ^ 7 by decide⟩
  offset_ge := hlow
  offset_le := hhigh

theorem DateTimeOffset.readers_agree_iff_noon :
    @ReadersAgree .exact .exact .exact (noon 0) ↔ (noon 0).offset = 0 :=
  @readers_agree_iff .exact .exact .exact Chrono.exact_isExact TimeCrate.exact_isExact (noon 0)
    (noon_valid (by decide) (by decide))

/-- Two hours east of UTC, noon is read two hours early. -/
theorem DateTimeOffset.readers_disagree_east :
    (noon 120).Valid 2 9998 ∧ ¬ @ReadersAgree .exact .exact .exact (noon 120) := by
  have hvalid := @noon_valid 120 (by decide) (by decide)
  refine ⟨hvalid, fun hagree => ?_⟩
  have hzero := @ReadersAgree.offset_eq_zero .exact .exact .exact Chrono.exact_isExact
    TimeCrate.exact_isExact _ hvalid hagree
  exact absurd hzero (by decide)

end Tiberius
