import Mathlib.Tactic.Ring
import Mathlib.Tactic.Linarith
import Tiberius.Variants

/-!
Temporal values in the columns of a bulk load. The encoder writes a time at the
scale of the value, while the reader of the column goes by the scale of the
column: its description is what selects the width, and it is what the increments
are counted in. A `datetime2` is brought to the scale of its column first; the
arms for a `time` and a `datetimeoffset` do not do so.
-/

namespace Tiberius

open Reading Reader Program Writing Writer

section Held

/-- A count of units of `10 ^ -scale`, as one of units of `10 ^ -target`: truncated,
or rounded half up. Both are exact where there is an exact count. -/
def HeldAt (amount scale held target : ℕ) : Prop :=
  held = amount * 10 ^ target / 10 ^ scale ∨
    held = (2 * (amount * 10 ^ target) + 10 ^ scale) / (2 * 10 ^ scale)

/-- Whole units carry over as they are. -/
theorem heldAt_shift {whole amount scale held target : ℕ} :
    HeldAt (whole * 10 ^ scale + amount) scale (whole * 10 ^ target + held) target ↔
      HeldAt amount scale held target := by
  have hpos : 0 < 10 ^ scale := Nat.pow_pos (by decide)
  have htruncated : (whole * 10 ^ scale + amount) * 10 ^ target / 10 ^ scale =
      whole * 10 ^ target + amount * 10 ^ target / 10 ^ scale := by
    rw [show (whole * 10 ^ scale + amount) * 10 ^ target =
      amount * 10 ^ target + 10 ^ scale * (whole * 10 ^ target) by ring,
      Nat.add_mul_div_left _ _ hpos, Nat.add_comm]
  have hrounded : (2 * ((whole * 10 ^ scale + amount) * 10 ^ target) + 10 ^ scale) /
      (2 * 10 ^ scale) =
        whole * 10 ^ target + (2 * (amount * 10 ^ target) + 10 ^ scale) / (2 * 10 ^ scale) := by
    rw [show 2 * ((whole * 10 ^ scale + amount) * 10 ^ target) + 10 ^ scale =
      2 * (amount * 10 ^ target) + 10 ^ scale + 2 * 10 ^ scale * (whole * 10 ^ target) by ring,
      Nat.add_mul_div_left _ _ (by omega), Nat.add_comm]
  unfold HeldAt
  rw [htruncated, hrounded, Nat.add_left_cancel_iff, Nat.add_left_cancel_iff]

/-- A factor of ten or more changes a count that is not zero. -/
theorem not_heldAt_finer {amount scale more : ℕ} (hamount : 0 < amount) :
    ¬ HeldAt amount scale amount (scale + (more + 1)) := by
  have hpos : 0 < 10 ^ scale := Nat.pow_pos (by decide)
  have hmore : 0 < 10 ^ more := Nat.pow_pos (by decide)
  have hless : amount * 1 < amount * (10 * 10 ^ more) :=
    Nat.mul_lt_mul_of_pos_left (by omega) hamount
  rintro (htruncated | hrounded)
  · rw [show amount * 10 ^ (scale + (more + 1)) = amount * (10 * 10 ^ more) * 10 ^ scale by ring,
      Nat.mul_div_cancel _ hpos] at htruncated
    omega
  · rw [show 2 * (amount * 10 ^ (scale + (more + 1))) + 10 ^ scale =
      10 ^ scale + 2 * 10 ^ scale * (amount * (10 * 10 ^ more)) by ring,
      Nat.add_mul_div_left _ _ (by omega)] at hrounded
    have hle := Nat.le_add_left (amount * (10 * 10 ^ more)) (10 ^ scale / (2 * 10 ^ scale))
    rw [← hrounded] at hle
    omega

theorem not_heldAt_coarser {amount target more : ℕ} (hamount : 0 < amount) :
    ¬ HeldAt amount (target + (more + 1)) amount target := by
  have hpos : 0 < 10 ^ target := Nat.pow_pos (by decide)
  have hmore : 0 < 10 ^ more := Nat.pow_pos (by decide)
  have hless : amount * 1 < amount * (10 * 10 ^ more) :=
    Nat.mul_lt_mul_of_pos_left (by omega) hamount
  rintro (htruncated | hrounded)
  · rw [show 10 ^ (target + (more + 1)) = 10 * 10 ^ more * 10 ^ target by ring,
      Nat.mul_div_mul_right _ _ hpos] at htruncated
    have hlt := Nat.div_lt_self hamount (show 1 < 10 * 10 ^ more by omega)
    omega
  · rw [show 2 * (amount * 10 ^ target) + 10 ^ (target + (more + 1)) =
      (2 * amount + 10 * 10 ^ more) * 10 ^ target by ring,
      show 2 * 10 ^ (target + (more + 1)) = 2 * (10 * 10 ^ more) * 10 ^ target by ring,
      Nat.mul_div_mul_right _ _ hpos] at hrounded
    have hlt : (2 * amount + 10 * 10 ^ more) / (2 * (10 * 10 ^ more)) < amount := by
      apply (Nat.div_lt_iff_lt_mul (by omega)).mpr
      nlinarith
    omega

/-- The same count at another scale is the same amount for zero only. -/
theorem heldAt_self_iff {amount scale target : ℕ} :
    HeldAt amount scale amount target ↔ scale = target ∨ amount = 0 := by
  constructor
  · intro hheld
    rcases Nat.eq_zero_or_pos amount with hzero | hamount
    · exact .inr hzero
    · left
      rcases Nat.lt_trichotomy scale target with hless | heq | hmore
      · obtain ⟨more, rfl⟩ := Nat.exists_eq_add_of_lt hless
        exact absurd hheld (not_heldAt_finer hamount)
      · exact heq
      · obtain ⟨more, rfl⟩ := Nat.exists_eq_add_of_lt hmore
        exact absurd hheld (not_heldAt_coarser hamount)
  · rintro (rfl | rfl)
    · exact .inl (Nat.mul_div_cancel _ (Nat.pow_pos (by decide))).symm
    · left
      rw [Nat.zero_mul, Nat.zero_div]

end Held

section Encoded

theorem Date.bytes_of_encode {date : Date} {bytes : List UInt8}
    (hencode : date.encode = .done bytes ()) :
    date.days.toNat < 2 ^ 24 ∧ bytes = toLe 3 date.days.toNat := by
  unfold Date.encode at hencode
  split_ifs at hencode with hlarge
  · exact absurd hencode Written.fail_ne_done
  · exact ⟨Nat.lt_of_not_le hlarge, (Written.done_inj.mp hencode).1.symm⟩

/-- The scales that share a width. -/
def SameWidth (scale target : ℕ) : Prop :=
  scale ≤ 2 ∧ target ≤ 2 ∨ (3 ≤ scale ∧ scale ≤ 4) ∧ 3 ≤ target ∧ target ≤ 4 ∨
    (5 ≤ scale ∧ scale ≤ 7) ∧ 5 ≤ target ∧ target ≤ 7

instance (scale target : ℕ) : Decidable (SameWidth scale target) :=
  inferInstanceAs (Decidable (_ ∨ _))

namespace Time

/-- The width of a time, by its scale. -/
theorem scale_of_len {time : Time} {output : List UInt8} {width : UInt8}
    (hlen : time.len = .done output width) :
    output = [] ∧ (time.scale.toNat ≤ 2 ∧ width = 3 ∨
      (3 ≤ time.scale.toNat ∧ time.scale.toNat ≤ 4) ∧ width = 4 ∨
        (5 ≤ time.scale.toNat ∧ time.scale.toNat ≤ 7) ∧ width = 5) := by
  unfold len at hlen
  split_ifs at hlen with htwo hfour hseven
  · obtain ⟨rfl, rfl⟩ := Written.done_inj.mp hlen
    exact ⟨rfl, .inl ⟨UInt8.le_iff_toNat_le.mp htwo, rfl⟩⟩
  · obtain ⟨rfl, rfl⟩ := Written.done_inj.mp hlen
    rw [UInt8.le_iff_toNat_le] at htwo hfour
    simp only [UInt8.reduceToNat] at htwo hfour
    exact ⟨rfl, .inr (.inl ⟨by omega, rfl⟩)⟩
  · obtain ⟨rfl, rfl⟩ := Written.done_inj.mp hlen
    rw [UInt8.le_iff_toNat_le] at hfour hseven
    simp only [UInt8.reduceToNat] at hfour hseven
    exact ⟨rfl, .inr (.inr ⟨by omega, rfl⟩)⟩
  · exact absurd hlen Written.fail_ne_done

/-- A time that has been written fits the width of its scale. -/
theorem fits_of_encode {time : Time} {bytes : List UInt8} (hencode : time.encode = .done bytes ()) :
    time.Fits := by
  obtain ⟨first, second, width, -, hlen, hput⟩ := Written.bind_eq_done hencode
  split_ifs at hput with hlarge
  · exact absurd hput Written.fail_ne_done
  · have hfits := Nat.lt_of_not_le hlarge
    unfold Fits
    simp only [UInt8.le_iff_toNat_le, UInt8.reduceToNat]
    rcases (scale_of_len hlen).2 with ⟨hscale, rfl⟩ | ⟨hscale, rfl⟩ | ⟨hscale, rfl⟩
    · exact .inl ⟨hscale, hfits⟩
    · exact .inr (.inl ⟨hscale, hfits⟩)
    · exact .inr (.inr ⟨hscale, hfits⟩)

end Time

theorem DateTimeOffset.fits_of_encode {dto : DateTimeOffset} {bytes : List UInt8}
    (hencode : dto.encode = .done bytes ()) :
    dto.datetime2.time.Fits ∧ dto.datetime2.date.days.toNat < 2 ^ 24 := by
  obtain ⟨_, _, _, _, hdatetime2, _⟩ := Written.bind_eq_done hencode
  obtain ⟨_, _, _, _, htime, hdate⟩ := Written.bind_eq_done hdatetime2
  exact ⟨Time.fits_of_encode htime, (Date.bytes_of_encode hdate).1⟩

end Encoded

section Rescaled

variable {env : Context}

/-- The increments of a time, counted at another scale. -/
def Time.relabel (time : Time) (scale : ℕ) : Time where
  increments := time.increments
  scale := UInt8.ofNat scale

def DateTimeOffset.relabel (dto : DateTimeOffset) (scale : ℕ) : DateTimeOffset where
  datetime2 := { date := dto.datetime2.date, time := dto.datetime2.time.relabel scale }
  offset := dto.offset

theorem Time.relabel_scale {time : Time} {scale : ℕ} (hscale : scale ≤ 7) :
    (time.relabel scale).scale.toNat = scale := by
  rw [relabel, UInt8.toNat_ofNat']
  omega

theorem SameWidth.le_seven {scale target : ℕ} (hsame : SameWidth scale target) : target ≤ 7 := by
  unfold SameWidth at hsame
  omega

theorem Time.Fits.relabel {time : Time} {scale : ℕ} (hfits : time.Fits)
    (hsame : SameWidth time.scale.toNat scale) : (time.relabel scale).Fits := by
  have hscale := @Time.relabel_scale time scale hsame.le_seven
  unfold Fits SameWidth at *
  simp only [UInt8.le_iff_toNat_le, UInt8.reduceToNat, hscale] at *
  have hincrements : (time.relabel scale).increments = time.increments := rfl
  rw [hincrements]
  omega

/-- Another scale is read from the width of the value only if it has that width. -/
theorem Time.sameWidth_of_decode {time back : Time} {scale : ℕ} {width : UInt8}
    {output bytes : List UInt8} (hlen : time.len = .done output width)
    (hreads : (Time.decode scale width.toNat).Reads env bytes back) :
    SameWidth time.scale.toNat scale := by
  by_contra hdiffer
  have hwidth : ¬ (scale ≤ 2 ∧ width.toNat = 3) ∧
      ¬ (3 ≤ scale ∧ scale ≤ 4 ∧ width.toNat = 4) ∧
        ¬ (5 ≤ scale ∧ scale ≤ 7 ∧ width.toNat = 5) := by
    unfold SameWidth at hdiffer
    rcases (scale_of_len hlen).2 with ⟨hscale, rfl⟩ | ⟨hscale, rfl⟩ | ⟨hscale, rfl⟩
    all_goals
      simp only [UInt8.reduceToNat]
      omega
  rw [Time.decode, if_neg hwidth.1, if_neg hwidth.2.1, if_neg hwidth.2.2] at hreads
  obtain ⟨_, _, _, _, hprotocol, _⟩ := reads_bind.mp hreads
  exact reads_protocol.mp hprotocol

theorem Time.len_relabel {time : Time} {scale : ℕ} {width : UInt8} (hfits : time.Fits)
    (hsame : SameWidth time.scale.toNat scale) (hlen : time.len = .done [] width) :
    (time.relabel scale).len = .done [] width := by
  obtain ⟨other, -, -, hother, -⟩ := @Time.decode_reads .new _ (hfits.relabel hsame)
  have hscale := @relabel_scale time scale hsame.le_seven
  obtain ⟨-, hwidth⟩ := scale_of_len hlen
  obtain ⟨-, hwidth'⟩ := scale_of_len hother
  rw [hscale] at hwidth'
  unfold SameWidth at hsame
  rw [hother]
  rcases hwidth with ⟨hvalue, rfl⟩ | ⟨hvalue, rfl⟩ | ⟨hvalue, rfl⟩
  all_goals
    rcases hwidth' with ⟨hcolumn, rfl⟩ | ⟨hcolumn, rfl⟩ | ⟨hcolumn, rfl⟩
    all_goals first | rfl | omega

/-- A scale of the same width takes the increments as they are. -/
theorem Time.decode_relabel {time : Time} {scale : ℕ} {width : UInt8} (hfits : time.Fits)
    (hsame : SameWidth time.scale.toNat scale) (hlen : time.len = .done [] width) :
    (Time.decode scale width.toNat).Reads env (toLe width.toNat time.increments.toNat)
      (time.relabel scale) := by
  obtain ⟨other, -, -, hother, -, hreads⟩ := @Time.decode_reads env _ (hfits.relabel hsame)
  obtain ⟨-, rfl⟩ := Written.done_inj.mp (hother.symm.trans (len_relabel hfits hsame hlen))
  rw [relabel_scale hsame.le_seven] at hreads
  exact hreads

theorem DateTimeOffset.decode_relabel {dto : DateTimeOffset} {scale : ℕ} {width : UInt8}
    (hfits : dto.datetime2.time.Fits) (hdate : dto.datetime2.date.days.toNat < 2 ^ 24)
    (hsame : SameWidth dto.datetime2.time.scale.toNat scale)
    (hlen : dto.datetime2.time.len = .done [] width) :
    (DateTimeOffset.decode scale width.toNat).Reads env (dto.bytes width.toNat)
      (dto.relabel scale) := by
  obtain ⟨other, -, -, hother, -, hreads⟩ :=
    @DateTimeOffset.decode_reads env (dto.relabel scale) (hfits.relabel hsame) hdate
  obtain ⟨-, rfl⟩ := Written.done_inj.mp
    (hother.symm.trans (Time.len_relabel hfits hsame hlen))
  rw [show (dto.relabel scale).datetime2.time.scale.toNat = scale from
    Time.relabel_scale hsame.le_seven] at hreads
  exact hreads

end Rescaled

/-- The units of `10 ^ -scale` seconds since the first of January of year 1. -/
def DateTimeOffset.ticks (dto : DateTimeOffset) : ℕ :=
  dto.datetime2.date.days.toNat * 86400 * 10 ^ dto.datetime2.time.scale.toNat +
    dto.datetime2.time.increments.toNat

namespace ColumnData

/-- The temporal values whose columns have a type of the same kind. -/
inductive IsTemporal : ColumnData → Prop
  | date (value : Date) : IsTemporal (date (some value))
  | time (value : Time) : IsTemporal (time (some value))
  | dateTimeOffset (value : DateTimeOffset) : IsTemporal (dateTimeOffset (some value))
  | dateTime (value : DateTime) : IsTemporal (dateTime (some value))
  | smallDateTime (value : SmallDateTime) : IsTemporal (smallDateTime (some value))

/-- The value that has been read denotes the moment of the one that was written,
at its own scale. -/
def SameMoment : ColumnData → ColumnData → Prop
  | date (some value), date (some back) => back = value
  | dateTime (some value), dateTime (some back) => back = value
  | smallDateTime (some value), smallDateTime (some back) => back = value
  | time (some value), time (some back) =>
    HeldAt value.increments.toNat value.scale.toNat back.increments.toNat back.scale.toNat
  | dateTimeOffset (some value), dateTimeOffset (some back) =>
    back.offset = value.offset ∧
      HeldAt value.ticks value.datetime2.time.scale.toNat back.ticks
        back.datetime2.time.scale.toNat
  | _, _ => False

end ColumnData

/-- The scales of a column that give a time back: its own one, and for midnight
those that share its width. -/
def Time.KeptAt (time : Time) (scale : ℕ) : Prop :=
  time.scale.toNat = scale ∨ time.increments.toNat = 0 ∧ SameWidth time.scale.toNat scale

theorem Time.keptAt_iff {time : Time} {scale : ℕ} (hfits : time.Fits) :
    time.KeptAt scale ↔ SameWidth time.scale.toNat scale ∧
      (time.scale.toNat = scale ∨ time.increments.toNat = 0) := by
  unfold Fits at hfits
  simp only [UInt8.le_iff_toNat_le, UInt8.reduceToNat] at hfits
  unfold KeptAt SameWidth
  omega

theorem time_sameMoment_iff {time : Time} {scale : ℕ} (hscale : scale ≤ 7) :
    (ColumnData.time (some time)).SameMoment (.time (some (time.relabel scale))) ↔
      time.scale.toNat = scale ∨ time.increments.toNat = 0 := by
  show HeldAt _ _ _ (time.relabel scale).scale.toNat ↔ _
  rw [Time.relabel_scale hscale]
  exact heldAt_self_iff

theorem dateTimeOffset_sameMoment_iff {dto : DateTimeOffset} {scale : ℕ} (hscale : scale ≤ 7) :
    (ColumnData.dateTimeOffset (some dto)).SameMoment
        (.dateTimeOffset (some (dto.relabel scale))) ↔
      dto.datetime2.time.scale.toNat = scale ∨ dto.datetime2.time.increments.toNat = 0 := by
  have hrelabel : (dto.relabel scale).datetime2.time.scale.toNat = scale :=
    Time.relabel_scale hscale
  have hticks : (dto.relabel scale).ticks =
      dto.datetime2.date.days.toNat * 86400 * 10 ^ scale + dto.datetime2.time.increments.toNat := by
    rw [DateTimeOffset.ticks, hrelabel]
    rfl
  show _ ∧ HeldAt _ _ _ (dto.relabel scale).datetime2.time.scale.toNat ↔ _
  rw [hrelabel, hticks, DateTimeOffset.ticks, heldAt_shift, heldAt_self_iff]
  exact ⟨fun h => h.2, fun h => ⟨rfl, h⟩⟩

section Columns

variable {env : Context}

/-- A column of some scale that reads the increments as they are, when it reads them. -/
theorem scaled_column_iff (relabelled : ColumnData) {p : Reader ColumnData} {bytes : List UInt8}
    {data : ColumnData} {time : Time} {scale : ℕ} (hfits : time.Fits)
    (hreads : SameWidth time.scale.toNat scale → p.Reads env bytes relabelled)
    (hwidth : ∀ back, p.Reads env bytes back → SameWidth time.scale.toNat scale)
    (hmoment : scale ≤ 7 → (data.SameMoment relabelled ↔
      time.scale.toNat = scale ∨ time.increments.toNat = 0)) :
    (∃ back, p.run env bytes = .done back [] ∧ data.SameMoment back) ↔ time.KeptAt scale := by
  rw [Time.keptAt_iff hfits]
  constructor
  · rintro ⟨back, hrun, hback⟩
    have hsame := hwidth back hrun
    obtain rfl := (hreads hsame).unique hrun
    exact ⟨hsame, (hmoment hsame.le_seven).mp hback⟩
  · rintro ⟨hsame, hkept⟩
    exact ⟨relabelled, hreads hsame, (hmoment hsame.le_seven).mpr hkept⟩

theorem time_column_iff {time : Time} {len : ℕ} {bytes : List UInt8}
    (hencode : ColumnData.putScaledTime 0 time time.encode = .done bytes ()) :
    (∃ back, (decodeTime len).run env bytes = .done back [] ∧
      (ColumnData.time (some time)).SameMoment back) ↔ time.KeptAt len := by
  obtain ⟨_, _, _, _, _, hput⟩ := Written.bind_eq_done hencode
  obtain ⟨_, _, _, _, _, hvalue⟩ := Written.bind_eq_done hput
  have hfits := Time.fits_of_encode hvalue
  obtain ⟨width, hlow, hhigh, hlen, hdone, -⟩ := @Time.decode_reads env time hfits
  obtain ⟨rfl, -⟩ := Written.done_inj.mp
    (hencode.symm.trans (Written.sized_done (fun len => [len + 0]) hlen hdone))
  have hzero : width ≠ 0 := by
    rintro rfl
    exact absurd hlow (by decide)
  have hbyte : readU8.Reads env [width + 0] width := by
    rw [UInt8.add_zero]
    exact readU8_put width
  apply scaled_column_iff (.time (some (time.relabel len))) hfits
  · intro hsame
    refine hbyte.bind ?_
    rw [if_neg hzero, if_pos ⟨hlow, hhigh⟩]
    exact (Time.decode_relabel hfits hsame hlen).bind_last (ret_reads _)
  · intro back hreads
    have hrest := hreads.of_bind hbyte
    rw [if_neg hzero, if_pos ⟨hlow, hhigh⟩] at hrest
    obtain ⟨_, _, _, _, htime, _⟩ := reads_bind.mp hrest
    exact Time.sameWidth_of_decode hlen htime
  · exact time_sameMoment_iff

theorem dateTimeOffset_column_iff {dto : DateTimeOffset} {len : ℕ} {bytes : List UInt8}
    (hencode : ColumnData.putScaledTime 5 dto.datetime2.time dto.encode = .done bytes ()) :
    (∃ back, (decodeDatetimeoffsetn len).run env bytes = .done back [] ∧
      (ColumnData.dateTimeOffset (some dto)).SameMoment back) ↔ dto.datetime2.time.KeptAt len := by
  obtain ⟨_, _, _, _, _, hput⟩ := Written.bind_eq_done hencode
  obtain ⟨_, _, _, _, _, hvalue⟩ := Written.bind_eq_done hput
  obtain ⟨hfits, hdate⟩ := DateTimeOffset.fits_of_encode hvalue
  obtain ⟨width, hlow, hhigh, hlen, hdone, -⟩ := @DateTimeOffset.decode_reads env dto hfits hdate
  obtain ⟨rfl, -⟩ := Written.done_inj.mp
    (hencode.symm.trans (Written.sized_done (fun len => [len + 5]) hlen hdone))
  obtain ⟨hzero, hless, hwidth⟩ := @width_add width 5 hlow hhigh (by decide)
  have hrest : (width + 5).toNat - 5 = width.toNat := hwidth
  have hbyte := @readU8_put env (width + 5)
  apply scaled_column_iff (.dateTimeOffset (some (dto.relabel len))) hfits
  · intro hsame
    refine hbyte.bind ?_
    rw [if_neg hzero, if_neg hless, hrest]
    exact (DateTimeOffset.decode_relabel hfits hdate hsame hlen).bind_last (ret_reads _)
  · intro back hreads
    have hvalue := hreads.of_bind hbyte
    rw [if_neg hzero, if_neg hless, hrest] at hvalue
    obtain ⟨_, _, _, _, hdto, _⟩ := reads_bind.mp hvalue
    obtain ⟨_, _, _, _, hdatetime2, _⟩ := reads_bind.mp hdto
    obtain ⟨_, _, _, _, htime, _⟩ := reads_bind.mp hdatetime2
    exact Time.sameWidth_of_decode hlen htime
  · exact dateTimeOffset_sameMoment_iff

theorem Date.column_reads {date : Date} {bytes : List UInt8}
    (hencode : (do putU8 3; date.encode) = .done bytes ()) :
    decodeDate.Reads env bytes (.date (some date)) := by
  obtain ⟨_, _, _, _, _, hvalue⟩ := Written.bind_eq_done hencode
  obtain ⟨hdone, hreads⟩ := @Date.decode_reads env date (Date.bytes_of_encode hvalue).1
  obtain ⟨rfl, -⟩ := Written.done_inj.mp (hencode.symm.trans (Written.headed_done [3] hdone))
  exact (readU8_put 3).bind (hreads.bind_last (ret_reads _))

theorem DateTime.column_reads {dt : DateTime} {bytes : List UInt8} (len : UInt8)
    (hencode : dt.encode = .done bytes ()) :
    (decodeDatetimen 8 len).Reads env bytes (.dateTime (some dt)) := by
  obtain ⟨other, -, hdone, hreads⟩ := @DateTime.decode_reads env dt
  obtain ⟨rfl, -⟩ := Written.done_inj.mp (hencode.symm.trans hdone)
  exact hreads.bind_last (ret_reads _)

theorem SmallDateTime.column_reads {dt : SmallDateTime} {bytes : List UInt8} (len : UInt8)
    (hencode : dt.encode = .done bytes ()) :
    (decodeDatetimen 4 len).Reads env bytes (.smallDateTime (some dt)) := by
  obtain ⟨other, -, hdone, hreads⟩ := @SmallDateTime.decode_reads env dt
  obtain ⟨rfl, -⟩ := Written.done_inj.mp (hencode.symm.trans hdone)
  exact hreads.bind_last (ret_reads _)

/-- A length in front of a value, and a reader that goes by it. -/
theorem sized_column_reads {len : UInt8} {written : Writer Unit} {bytes : List UInt8}
    {p : UInt8 → Reader ColumnData} {data : ColumnData}
    (hencode : (do putU8 len; written) = .done bytes ())
    (hvalue : ∀ value, written = .done value () → (p len).Reads env value data) :
    (readU8.bind p).Reads env bytes data := by
  obtain ⟨_, value, _, rfl, hbyte, hwritten⟩ := Written.bind_eq_done hencode
  obtain ⟨rfl, -⟩ := Written.done_inj.mp hbyte
  exact (readU8_put len).bind (hvalue value hwritten)

/-- The value behind the header of a variant has come to its end. -/
theorem variant_value_done {data : ColumnData} {header bytes : List UInt8} {value : Writer Unit}
    (hbody : variantBody data = some (do Written.put header; value))
    (hencode : encodeSqlVariant data = .done bytes ()) : ∃ output, value = .done output () := by
  rw [encodeSqlVariant, hbody] at hencode
  obtain ⟨_, _, _, _, haside, _⟩ := Written.bind_eq_done hencode
  obtain ⟨-, _, hdone⟩ := Written.aside_eq_done haside
  obtain ⟨_, output, _, _, _, hvalue⟩ := Written.bind_eq_done hdone
  exact ⟨output, hvalue⟩

section Variant

variable [EncodingRs]

theorem VariantReads.of_encode {data : ColumnData} {bytes : List UInt8}
    (hreads : VariantReads env data) (hencode : encodeSqlVariant data = .done bytes ()) :
    decodeSqlVariant.Reads env bytes data := by
  obtain ⟨other, hdone, hvalue⟩ := hreads
  obtain ⟨rfl, -⟩ := Written.done_inj.mp (hencode.symm.trans hdone)
  exact hvalue

/-- A temporal value that has gone out in a variant comes back as it is. -/
theorem temporal_variant_reads {data : ColumnData} {bytes : List UInt8} (hdata : data.IsTemporal)
    (hencode : encodeSqlVariant data = .done bytes ()) :
    decodeSqlVariant.Reads env bytes data := by
  cases hdata with
  | date value =>
    obtain ⟨_, hvalue⟩ := variant_value_done rfl hencode
    exact (date_variantReads (Date.bytes_of_encode hvalue).1).of_encode hencode
  | time value =>
    obtain ⟨_, hvalue⟩ := variant_value_done rfl hencode
    exact (time_variantReads (Time.fits_of_encode hvalue)).of_encode hencode
  | dateTimeOffset value =>
    obtain ⟨_, hvalue⟩ := variant_value_done rfl hencode
    obtain ⟨hfits, hdate⟩ := DateTimeOffset.fits_of_encode hvalue
    exact (dateTimeOffset_variantReads hfits hdate).of_encode hencode
  | dateTime value => exact (dateTime_variantReads value).of_encode hencode
  | smallDateTime value => exact (smallDateTime_variantReads value).of_encode hencode

end Variant

end Columns

namespace ColumnData

/-- What gives a value back: a column that has a scale has to give the time back. -/
def KeptIn : ColumnData → TypeInfo → Prop
  | time (some value), .varLenSized vlc => vlc.type = .timen → value.KeptAt vlc.len
  | dateTimeOffset (some value), .varLenSized vlc =>
    vlc.type = .datetimeOffsetn → value.datetime2.time.KeptAt vlc.len
  | _, _ => True

theorem SameMoment.refl {data : ColumnData} (hdata : data.IsTemporal) : data.SameMoment data := by
  cases hdata with
  | time value => exact heldAt_self_iff.mpr (.inl rfl)
  | dateTimeOffset value => exact ⟨rfl, heldAt_self_iff.mpr (.inl rfl)⟩
  | _ => exact rfl

section Encoded

variable [EncodingRs] {env : Context} {data : ColumnData} {ty : TypeInfo} {bytes : List UInt8}

/-- A column that gives back the value that it was given. -/
theorem sameMoment_iff_of_reads (hdata : data.IsTemporal) (hkept : data.KeptIn ty)
    (hreads : (ColumnData.decode ty).Reads env bytes data) :
    (∃ back, (ColumnData.decode ty).run env bytes = .done back [] ∧ data.SameMoment back) ↔
      data.KeptIn ty :=
  ⟨fun _ => hkept, fun _ => ⟨data, hreads, .refl hdata⟩⟩

variable [StdLib]

/-- Temporal values go into columns without a length and columns with one. -/
theorem IsTemporal.column (hdata : data.IsTemporal)
    (hencode : data.encode (some ty) = .done bytes ()) :
    (∃ fixed, ty = .fixedLen fixed ∧ data.encodeFixedLen fixed = .done bytes ()) ∨
      ∃ vlc, ty = .varLenSized vlc ∧ data.encodeVarLen vlc = .done bytes () := by
  cases ty with
  | fixedLen fixed => exact .inl ⟨fixed, rfl, hencode⟩
  | varLenSized vlc => exact .inr ⟨vlc, rfl, hencode⟩
  | varLenSizedPrecision ty size precision scale =>
    cases hdata <;> cases ty <;> exact invalidType_elim hencode
  | xml schema size => cases hdata <;> exact invalidType_elim hencode
  | udt info => exact invalidType_elim hencode

theorem date_column {value : Date}
    (hencode : (date (some value)).encode (some ty) = .done bytes ()) :
    (ColumnData.decode ty).Reads env bytes (date (some value)) := by
  rcases (IsTemporal.date value).column hencode with ⟨fixed, rfl, hdone⟩ | ⟨vlc, rfl, hdone⟩
  · cases fixed <;> exact invalidType_elim hdone
  · obtain ⟨type, len, collation⟩ := vlc
    cases type
    case daten => exact Date.column_reads hdone
    case ssVariant => exact temporal_variant_reads (.date value) hdone
    all_goals exact invalidType_elim hdone

theorem dateTime_column {value : DateTime}
    (hencode : (dateTime (some value)).encode (some ty) = .done bytes ()) :
    (ColumnData.decode ty).Reads env bytes (dateTime (some value)) := by
  rcases (IsTemporal.dateTime value).column hencode with ⟨fixed, rfl, hdone⟩ | ⟨vlc, rfl, hdone⟩
  · cases fixed
    case datetime => exact value.column_reads 8 hdone
    all_goals exact invalidType_elim hdone
  · obtain ⟨type, len, collation⟩ := vlc
    cases type
    case datetimen => exact sized_column_reads hdone fun _ hvalue => value.column_reads _ hvalue
    case ssVariant => exact temporal_variant_reads (.dateTime value) hdone
    all_goals exact invalidType_elim hdone

theorem smallDateTime_column {value : SmallDateTime}
    (hencode : (smallDateTime (some value)).encode (some ty) = .done bytes ()) :
    (ColumnData.decode ty).Reads env bytes (smallDateTime (some value)) := by
  rcases (IsTemporal.smallDateTime value).column hencode with
    ⟨fixed, rfl, hdone⟩ | ⟨vlc, rfl, hdone⟩
  · cases fixed
    case datetime4 => exact value.column_reads 8 hdone
    all_goals exact invalidType_elim hdone
  · obtain ⟨type, len, collation⟩ := vlc
    cases type
    case datetimen => exact sized_column_reads hdone fun _ hvalue => value.column_reads _ hvalue
    case ssVariant => exact temporal_variant_reads (.smallDateTime value) hdone
    all_goals exact invalidType_elim hdone

end Encoded

end ColumnData

section Moments

variable [StdLib] [EncodingRs]

/-- A temporal value that has gone out under a column is read back as its moment
exactly when the column keeps it. -/
theorem temporal_column_iff (env : Context) (ty : TypeInfo) (data : ColumnData)
    (bytes : List UInt8) (hdata : data.IsTemporal)
    (hencode : data.encode (some ty) = .done bytes ()) :
    (∃ back, (ColumnData.decode ty).run env bytes = .done back [] ∧ data.SameMoment back) ↔
      data.KeptIn ty := by
  cases hdata with
  | date value =>
    exact ColumnData.sameMoment_iff_of_reads (.date value) trivial
      (ColumnData.date_column hencode)
  | dateTime value =>
    exact ColumnData.sameMoment_iff_of_reads (.dateTime value) trivial
      (ColumnData.dateTime_column hencode)
  | smallDateTime value =>
    exact ColumnData.sameMoment_iff_of_reads (.smallDateTime value) trivial
      (ColumnData.smallDateTime_column hencode)
  | time value =>
    rcases (ColumnData.IsTemporal.time value).column hencode with
      ⟨fixed, rfl, hdone⟩ | ⟨vlc, rfl, hdone⟩
    · cases fixed <;> exact ColumnData.invalidType_elim hdone
    · obtain ⟨type, len, collation⟩ := vlc
      cases type
      case timen => exact (time_column_iff hdone).trans ⟨fun h _ => h, fun h => h rfl⟩
      case ssVariant =>
        exact ColumnData.sameMoment_iff_of_reads (.time value) (fun heq => by cases heq)
          (temporal_variant_reads (.time value) hdone)
      all_goals exact ColumnData.invalidType_elim hdone
  | dateTimeOffset value =>
    rcases (ColumnData.IsTemporal.dateTimeOffset value).column hencode with
      ⟨fixed, rfl, hdone⟩ | ⟨vlc, rfl, hdone⟩
    · cases fixed <;> exact ColumnData.invalidType_elim hdone
    · obtain ⟨type, len, collation⟩ := vlc
      cases type
      case datetimeOffsetn =>
        exact (dateTimeOffset_column_iff hdone).trans ⟨fun h _ => h, fun h => h rfl⟩
      case ssVariant =>
        exact ColumnData.sameMoment_iff_of_reads (.dateTimeOffset value)
          (fun heq => by cases heq) (temporal_variant_reads (.dateTimeOffset value) hdone)
      all_goals exact ColumnData.invalidType_elim hdone

end Moments

/-- One o'clock, in increments of 100 nanoseconds. -/
def Time.oneOClock : Time where
  increments := 36000000000
  scale := 7

theorem temporal_column_iff_same_scale :
    (∃ back, (@ColumnData.decode .ascii
        (.varLenSized { type := .timen, len := 7, collation := none })).run .new
          [5, 0, 104, 196, 97, 8] = .done back [] ∧
        (ColumnData.time (some Time.oneOClock)).SameMoment back) ↔
      (ColumnData.time (some Time.oneOClock)).KeptIn
        (.varLenSized { type := .timen, len := 7, collation := none }) :=
  @temporal_column_iff .exact .ascii .new _ _ [5, 0, 104, 196, 97, 8] (.time Time.oneOClock) rfl

/-- In a column of scale 5 one o'clock is read as a hundred hours. -/
theorem temporal_column_lost :
    ¬ ∀ (env : Context) (header rest : List UInt8) (ty : TypeInfo) (data : ColumnData)
      (bytes : List UInt8), TypeInfo.decode.run env header = .done ty rest → data.IsTemporal →
        @ColumnData.encode .exact .ascii data (some ty) = .done bytes () →
          ∃ back, (@ColumnData.decode .ascii ty).run env bytes = .done back [] ∧
            data.SameMoment back := by
  intro hkept
  obtain ⟨back, hrun, hmoment⟩ := hkept .new [0x29, 5] []
    (.varLenSized { type := .timen, len := 5, collation := none }) (.time (some .oneOClock))
    [5, 0, 104, 196, 97, 8] rfl (.time _) rfl
  have hread : (@ColumnData.decode .ascii
      (.varLenSized { type := .timen, len := 5, collation := none })).run .new
        [5, 0, 104, 196, 97, 8] =
          .done (.time (some { increments := 36000000000, scale := 5 })) [] := rfl
  cases hread.symm.trans hrun
  have hheld : HeldAt 36000000000 7 36000000000 5 := hmoment
  unfold HeldAt at hheld
  omega

end Tiberius
