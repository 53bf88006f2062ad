import Mathlib.Tactic.Ring
import Mathlib.Tactic.Positivity
import Tiberius.Variants

/-!
The nullable columns of a fixed width in a bulk load. Their values go out behind a
length byte, which is zero for NULL and otherwise announces the declared width of
the column. The encoder writes the width of the value instead; and a number is
brought to the scale of its column without a look at the precision.
-/

namespace Tiberius

open Reading Reader Program Writing Writer

section Digits

namespace Numeric

theorem precision_pos (num : Numeric) : 0 < num.precision := by
  rw [precision]
  split_ifs <;> omega

theorem precision_le (num : Numeric) : num.precision ≤ 39 := by
  have hscale : num.scale.toNat ≤ 38 := UInt8.le_iff_toNat_le.mp num.scale_le
  have hlow := num.value_ge
  have hhigh := num.value_lt
  rw [precision_le_iff]
  omega

/-- The digits that fit a number of some size, its sign included. -/
def capacity (size : ℕ) : ℕ :=
  if size < 5 then 0 else if size < 9 then 9 else if size < 13 then 19
  else if size < 17 then 28 else 39

theorem len_le_iff {num : Numeric} {size : ℕ} :
    num.len.toNat ≤ size ↔ num.precision ≤ capacity size := by
  have hpos := num.precision_pos
  have hmax := num.precision_le
  unfold len capacity
  split_ifs
  all_goals
    simp only [UInt8.reduceToNat]
    omega

/-- A result that has passed the range check of its intermediate values. -/
theorem checked_eq_ok {checked : Prop} [Decidable checked] {value : ℤ} {scale : UInt8}
    {num : Numeric}
    (hnew : (if checked then newWithScale value scale else rescaleOverflow) = .ok num) :
    num.value = value ∧ num.scale = scale := by
  unfold newWithScale rescaleOverflow at hnew
  split_ifs at hnew
  cases hnew
  exact ⟨rfl, rfl⟩

/-- A value in range makes a number, so only the check can fail. -/
theorem checked_eq_error {checked : Prop} [Decidable checked] {value : ℤ} {scale : UInt8}
    {fault : Fault} (hscale : scale ≤ 38)
    (hvalue : checked → -2 ^ 127 ≤ value ∧ value < 2 ^ 127)
    (hnew : (if checked then newWithScale value scale else rescaleOverflow) = .error fault) :
    ∃ error, fault = .error error := by
  unfold newWithScale rescaleOverflow at hnew
  split_ifs at hnew with hchecked hvalid
  · exact absurd ⟨hvalue hchecked, hscale⟩ hvalid
  · cases hnew
    exact ⟨_, rfl⟩

/-- Half of a power of ten is a whole number. -/
theorem tdiv_two_pow (count : ℕ) : ((10 : ℤ) ^ (count + 1)).tdiv 2 = 5 * 10 ^ count := by
  rw [show (10 : ℤ) ^ (count + 1) = 2 * (5 * 10 ^ count) by ring]
  exact Int.mul_tdiv_cancel_left _ (by decide)

/-- The magnitude of the number at a scale, half away from zero. -/
def roundedAt (num : Numeric) (scale : ℕ) : ℕ :=
  (2 * (num.value.natAbs * 10 ^ scale) + 10 ^ num.scale.toNat) / (2 * 10 ^ num.scale.toNat)

/-- A scale that is not smaller keeps all the digits. -/
theorem roundedAt_add {num : Numeric} {scale more : ℕ} (hscale : scale = num.scale.toNat + more) :
    num.roundedAt scale = num.value.natAbs * 10 ^ more := by
  have hpos : 0 < 10 ^ num.scale.toNat := Nat.pow_pos (by decide)
  rw [roundedAt, hscale, show 2 * (num.value.natAbs * 10 ^ (num.scale.toNat + more)) +
    10 ^ num.scale.toNat = (2 * (num.value.natAbs * 10 ^ more) + 1) * 10 ^ num.scale.toNat by ring,
    Nat.mul_div_mul_right _ _ hpos]
  omega

theorem roundedAt_sub {num : Numeric} {scale less : ℕ}
    (hscale : num.scale.toNat = scale + (less + 1)) :
    num.roundedAt scale = (num.value.natAbs + 5 * 10 ^ less) / 10 ^ (less + 1) := by
  have hpos : 0 < 2 * 10 ^ scale := Nat.mul_pos (by decide) (Nat.pow_pos (by decide))
  rw [roundedAt, hscale, show 2 * (num.value.natAbs * 10 ^ scale) + 10 ^ (scale + (less + 1)) =
    (num.value.natAbs + 5 * 10 ^ less) * (2 * 10 ^ scale) by ring,
    show 2 * 10 ^ (scale + (less + 1)) = 10 ^ (less + 1) * (2 * 10 ^ scale) by ring,
    Nat.mul_div_mul_right _ _ hpos]

/-- Half a unit is added away from zero. -/
def awayFromZero (value half : ℤ) : ℤ := if 0 ≤ value then value + half else value - half

theorem awayFromZero_natAbs {value half : ℤ} (hhalf : 0 ≤ half) :
    (awayFromZero value half).natAbs = value.natAbs + half.natAbs := by
  unfold awayFromZero
  split_ifs <;> omega

theorem rescale_finer {num : Numeric} {scale : UInt8} (hless : num.scale < scale) {more : ℕ}
    (hscale : scale.toNat = num.scale.toNat + more) :
    num.rescale scale =
      if inI128 (10 ^ more) && inI128 (num.value * 10 ^ more) then
        newWithScale (num.value * 10 ^ more) scale
      else rescaleOverflow := by
  rw [rescale, if_neg (UInt8.ne_of_lt hless).symm, if_pos hless, hscale, Nat.add_sub_cancel_left]

/-- The digits behind a smaller scale are rounded away. -/
theorem rescale_coarser {num : Numeric} {scale : UInt8} (hless : scale < num.scale) {less : ℕ}
    (hscale : num.scale.toNat = scale.toNat + (less + 1)) :
    num.rescale scale =
      if inI128 (10 ^ (less + 1)) && inI128 (awayFromZero num.value (5 * 10 ^ less)) then
        newWithScale ((awayFromZero num.value (5 * 10 ^ less)).tdiv (10 ^ (less + 1))) scale
      else rescaleOverflow := by
  rw [rescale, if_neg (UInt8.ne_of_lt hless), if_neg (UInt8.not_lt.mpr (UInt8.le_of_lt hless)),
    hscale, Nat.add_sub_cancel_left, ← tdiv_two_pow]
  rfl

theorem scale_cases (scale target : UInt8) :
    target = scale ∨ (scale < target ∧ ∃ more, target.toNat = scale.toNat + more) ∨
      target < scale ∧ ∃ less, scale.toNat = target.toNat + (less + 1) := by
  simp only [UInt8.lt_iff_toNat_lt, ← UInt8.toNat_inj]
  rcases Nat.lt_trichotomy scale.toNat target.toNat with hless | heq | hmore
  · exact .inr (.inl ⟨hless, target.toNat - scale.toNat, by omega⟩)
  · exact .inl heq.symm
  · exact .inr (.inr ⟨hmore, scale.toNat - target.toNat - 1, by omega⟩)

/-- A number that has been brought to a scale has been rounded to it. -/
theorem rescale_eq_ok {num after : Numeric} {scale : UInt8}
    (hrescale : num.rescale scale = .ok after) :
    after.scale = scale ∧ after.value.natAbs = num.roundedAt scale.toNat := by
  rcases scale_cases num.scale scale with rfl | ⟨hless, more, hmore⟩ | ⟨hless, less, hmore⟩
  · rw [rescale, if_pos rfl] at hrescale
    cases hrescale
    exact ⟨rfl, by rw [roundedAt_add (Nat.add_zero _).symm, Nat.pow_zero, Nat.mul_one]⟩
  · rw [rescale_finer hless hmore] at hrescale
    obtain ⟨hvalue, hscale⟩ := checked_eq_ok hrescale
    refine ⟨hscale, ?_⟩
    rw [hvalue, Int.natAbs_mul, Int.natAbs_pow, roundedAt_add hmore]
    rfl
  · rw [rescale_coarser hless hmore] at hrescale
    obtain ⟨hvalue, hscale⟩ := checked_eq_ok hrescale
    refine ⟨hscale, ?_⟩
    rw [hvalue, Int.natAbs_tdiv, awayFromZero_natAbs (by positivity), Int.natAbs_pow,
      Int.natAbs_mul, Int.natAbs_pow, roundedAt_sub hmore]
    rfl

theorem inI128_iff {value : ℤ} : inI128 value = true ↔ -2 ^ 127 ≤ value ∧ value < 2 ^ 127 := by
  simp only [inI128, Bool.and_eq_true, decide_eq_true_eq]

/-- A scale that a number can have is no reason to panic. -/
theorem rescale_eq_error {num : Numeric} {scale : UInt8} {fault : Fault} (hscale : scale ≤ 38)
    (hrescale : num.rescale scale = .error fault) : ∃ error, fault = .error error := by
  rcases scale_cases num.scale scale with rfl | ⟨hless, more, hmore⟩ | ⟨hless, less, hmore⟩
  · rw [rescale, if_pos rfl] at hrescale
    cases hrescale
  · rw [rescale_finer hless hmore] at hrescale
    refine checked_eq_error hscale ?_ hrescale
    intro hchecked
    rw [Bool.and_eq_true, inI128_iff] at hchecked
    exact inI128_iff.mp hchecked.2
  · rw [rescale_coarser hless hmore] at hrescale
    refine checked_eq_error hscale ?_ hrescale
    intro hchecked
    rw [Bool.and_eq_true, inI128_iff, inI128_iff] at hchecked
    have hdiv : ((awayFromZero num.value (5 * 10 ^ less)).tdiv (10 ^ (less + 1))).natAbs * 2 ≤
        (awayFromZero num.value (5 * 10 ^ less)).natAbs := by
      have htwo : 2 ≤ (10 ^ (less + 1) : ℕ) := by
        have hpos : 0 < 10 ^ less := Nat.pow_pos (by decide)
        rw [Nat.pow_succ]
        omega
      rw [Int.natAbs_tdiv, Int.natAbs_pow]
      exact Nat.le_trans (Nat.mul_le_mul_left _ htwo) (Nat.div_mul_le_self _ _)
    omega

/-- The number has at most so many digits when it is rounded to a scale. -/
def RoundsBelow (num : Numeric) (scale digits : ℕ) : Prop :=
  2 * (num.value.natAbs * 10 ^ scale) + 10 ^ num.scale.toNat <
    10 ^ digits * (2 * 10 ^ num.scale.toNat)

theorem roundedAt_lt_iff {num : Numeric} {scale digits : ℕ} :
    num.roundedAt scale < 10 ^ digits ↔ num.RoundsBelow scale digits :=
  Nat.div_lt_iff_lt_mul (Nat.mul_pos (by decide) (Nat.pow_pos (by decide)))

end Numeric

end Digits

/-- The nullable types of a fixed width. -/
def TypeInfo.IsNullable : TypeInfo → Prop
  | .varLenSized vlc =>
    match vlc.type with
    | .intn | .floatn | .datetimen | .bitn | .guid | .money => True
    | _ => False
  | .varLenSizedPrecision _ _ _ _ => True
  | _ => False

/-- What a server takes behind the length byte: nothing for NULL, and else the declared
width, or the sign and the magnitude of a number within the declared size and precision. -/
def TypeInfo.Takes (len : UInt8) (rest : List UInt8) : TypeInfo → Prop
  | .varLenSized vlc => len = 0 ∨ len.toNat = vlc.len
  | .varLenSizedPrecision _ size precision _ =>
    len = 0 ∨ len.toNat ≤ size ∧ leNat (rest.drop 1) < 10 ^ precision.toNat
  | _ => False

/-- A length byte, that many bytes, and nothing that the column does not take. -/
def TypeInfo.Conforms (ty : TypeInfo) (bytes : List UInt8) : Prop :=
  ∃ len rest, bytes = len :: rest ∧ rest.length = len.toNat ∧ ty.Takes len rest

theorem TypeInfo.conforms_cons {ty : TypeInfo} {len : UInt8} {rest : List UInt8} :
    ty.Conforms (len :: rest) ↔ rest.length = len.toNat ∧ ty.Takes len rest := by
  constructor
  · rintro ⟨_, _, heq, hlength, htakes⟩
    cases heq
    exact ⟨hlength, htakes⟩
  · rintro ⟨hlength, htakes⟩
    exact ⟨len, rest, rfl, hlength, htakes⟩

namespace ColumnData

/-- The width that the encoder writes for a value that is not NULL. -/
def width : ColumnData → ℕ
  | bit _ | u8 _ => 1
  | i16 _ => 2
  | i32 _ | f32 _ | smallDateTime _ => 4
  | i64 _ | f64 _ | dateTime _ | dateTime2 _ => 8
  | guid _ => 16
  | _ => 0

/-- The values that have the width of their column. Money is written in eight bytes
unless the column has four; a number has to fit the size and the precision once it
has been rounded to the scale. -/
def FitsIn (data : ColumnData) : TypeInfo → Prop
  | .varLenSized vlc =>
    data.IsNull ∨
      if vlc.type = .money then vlc.len = 4 ∨ vlc.len = 8 else data.width = vlc.len
  | .varLenSizedPrecision _ size precision scale =>
    match data with
    | numeric (some num) =>
      scale.toNat < Numeric.capacity size ∧
        num.RoundsBelow scale.toNat (Numeric.capacity size) ∧
        num.RoundsBelow scale.toNat precision.toNat
    | _ => True
  | _ => True

end ColumnData

/-- An encoder that does not panic, and whose value conforms to its column exactly
under a condition. -/
structure SentWithin (ty : TypeInfo) (written : Writer Unit) (fits : Prop) : Prop where
  refuses : ∀ fault, written.result = .error fault → ∃ error, fault = .error error
  conforms : ∀ bytes, written = .done bytes () → (ty.Conforms bytes ↔ fits)

namespace SentWithin

variable {ty : TypeInfo} {fits : Prop}

theorem of_fail {error : Error} : SentWithin ty (.fail (.error error)) fits where
  refuses fault hfault := by
    cases hfault
    exact ⟨error, rfl⟩
  conforms bytes hdone := absurd hdone Written.fail_ne_done

theorem of_done {bytes : List UInt8} (hconforms : ty.Conforms bytes ↔ fits) :
    SentWithin ty (.done bytes ()) fits where
  refuses fault hfault := by cases hfault
  conforms other hdone := by
    obtain ⟨rfl, -⟩ := Written.done_inj.mp hdone
    exact hconforms

theorem of_written {written : Writer Unit} {bytes : List UInt8}
    (hwritten : written = .done bytes ()) (hconforms : ty.Conforms bytes ↔ fits) :
    SentWithin ty written fits := by
  rw [hwritten]
  exact of_done hconforms

variable {vlc : VarLenContext}

theorem null (hfits : fits) : SentWithin (.varLenSized vlc) (putU8 0) fits :=
  of_done (iff_of_true (TypeInfo.conforms_cons.mpr ⟨rfl, .inl rfl⟩) hfits)

/-- A value behind its own width conforms to a column of that width. -/
theorem value {len : UInt8} {rest : List UInt8} (hpos : len ≠ 0) (hlength : rest.length = len.toNat)
    (hfits : fits ↔ len.toNat = vlc.len) :
    SentWithin (.varLenSized vlc) (.done (len :: rest) ()) fits := by
  refine of_done (TypeInfo.conforms_cons.trans ?_)
  rw [hfits]
  exact ⟨fun h => h.2.resolve_left hpos, fun h => ⟨hlength, .inr h⟩⟩

theorem nullable {α : Type} {len : UInt8} {f : α → List UInt8} {value : Option α}
    (hpos : len ≠ 0) (hlength : ∀ v, value = some v → (f v).length = len.toNat) :
    SentWithin (.varLenSized vlc) (putNullable len (value.map f))
      (value = none ∨ len.toNat = vlc.len) := by
  cases value with
  | none => exact null (.inl rfl)
  | some v =>
    refine SentWithin.value hpos (hlength v rfl) ?_
    simp only [reduceCtorEq, false_or]

theorem sized (len : UInt8) {written : Writer Unit} {rest : List UInt8} (hpos : len ≠ 0)
    (hwritten : written = .done rest ()) (hlength : rest.length = len.toNat)
    (hfits : fits ↔ len.toNat = vlc.len) :
    SentWithin (.varLenSized vlc) (do putU8 len; written) fits := by
  rw [hwritten]
  exact SentWithin.value hpos hlength hfits

/-- An amount goes out in four bytes to a column of four and in eight to any other. -/
theorem scaled {amount : ℤ} {text : String} (hfits : fits ↔ vlc.len = 4 ∨ vlc.len = 8) :
    SentWithin (.varLenSized vlc) (putScaled vlc.len amount text true) fits := by
  by_cases hsmall : vlc.len = 4
  · by_cases hrange : amount < -2 ^ 31 ∨ 2 ^ 31 - 1 < amount
    · rw [putScaled, if_pos hsmall, if_pos hrange]
      exact of_fail
    · rw [putScaled, if_pos hsmall, if_neg hrange]
      refine sized 4 (by decide) rfl (toLe_length 4 _) ?_
      rw [hfits]
      exact iff_of_true (.inl hsmall) hsmall.symm
  · by_cases hrange : amount < -2 ^ 63 ∨ 2 ^ 63 - 1 < amount
    · rw [putScaled, if_neg hsmall, if_pos hrange]
      exact of_fail
    · rw [putScaled, if_neg hsmall, if_neg hrange]
      refine sized 8 (by decide) rfl (by rfl) ?_
      rw [hfits]
      exact ⟨fun h => (h.resolve_left hsmall).symm, fun h => .inr h.symm⟩

/-- A number brought to the scale of its column. -/
theorem number {num : Numeric} {column : VarLenType} {size : ℕ} {precision scale : UInt8}
    (hscale : scale ≤ 38) :
    SentWithin (.varLenSizedPrecision column size precision scale)
      (do
        let num ← Written.ofExcept (num.rescale scale)
        num.encode)
      (scale.toNat < Numeric.capacity size ∧
        num.RoundsBelow scale.toNat (Numeric.capacity size) ∧
        num.RoundsBelow scale.toNat precision.toNat) := by
  cases hrescale : num.rescale scale with
  | error fault =>
    obtain ⟨error, rfl⟩ := Numeric.rescale_eq_error hscale hrescale
    exact of_fail
  | ok after =>
    obtain ⟨hafter, hvalue⟩ := Numeric.rescale_eq_ok hrescale
    obtain ⟨width, hwidth, hlen, hlt, hencode⟩ := after.encode_eq
    have hnat : after.len.toNat = width + 1 := by
      rw [hlen, UInt8.toNat_ofNat']
      omega
    have hpos : after.len ≠ 0 := by
      intro hzero
      rw [hzero] at hnat
      cases hnat
    have hmagnitude : leNat (toLe width after.value.natAbs) = after.value.natAbs := by
      rw [leNat_toLe, Nat.mod_eq_of_lt hlt]
    refine of_written hencode (TypeInfo.conforms_cons.trans ?_)
    show _ ∧ (_ ∨ _ ∧ leNat (toLe width after.value.natAbs) < _) ↔ _
    rw [hmagnitude, Numeric.len_le_iff, Numeric.precision_le_iff, hafter, hvalue,
      Numeric.roundedAt_lt_iff, Numeric.roundedAt_lt_iff]
    constructor
    · rintro ⟨-, htakes⟩
      obtain ⟨⟨hdigits, hsize⟩, hprecision⟩ := htakes.resolve_left hpos
      exact ⟨hdigits, hsize, hprecision⟩
    · rintro ⟨hdigits, hsize, hprecision⟩
      refine ⟨?_, .inr ⟨⟨hdigits, hsize⟩, hprecision⟩⟩
      rw [hnat, List.length_cons, toLe_length]

theorem moneyNumeric {num : Numeric} (hfits : fits ↔ vlc.len = 4 ∨ vlc.len = 8) :
    SentWithin (.varLenSized vlc) (encodeMoneyNumeric vlc.len num true) fits := by
  unfold encodeMoneyNumeric
  cases num.toMoney with
  | none => exact of_fail
  | some amount => exact scaled hfits

variable [StdLib]

theorem money {bits : UInt64} (hfits : fits ↔ vlc.len = 4 ∨ vlc.len = 8) :
    SentWithin (.varLenSized vlc) (encodeMoney vlc.len bits true) fits := by
  unfold encodeMoney
  cases f64Parts bits with
  | none => exact of_fail
  | some parts => exact scaled hfits

end SentWithin

section Columns

/-- A value that is not NULL fits by its width, or by that of money. -/
theorem fits_iff {data : ColumnData} {vlc : VarLenContext} {p : Prop} (hnull : ¬ data.IsNull)
    (hwidth : (if vlc.type = .money then vlc.len = 4 ∨ vlc.len = 8 else data.width = vlc.len) ↔ p) :
    data.FitsIn (.varLenSized vlc) ↔ p :=
  (or_iff_right hnull).trans hwidth

/-- A `datetime2` before 1900 or of an unknown scale is refused, any other is a `datetime`. -/
theorem datetime2ToDatetime_cases (dt2 : DateTime2) :
    (∃ error, datetime2ToDatetime dt2 = .fail (.error error)) ∨
      ∃ dt, datetime2ToDatetime dt2 = .done [] dt := by
  unfold datetime2ToDatetime
  split_ifs
  · exact .inl ⟨_, rfl⟩
  · exact .inl ⟨_, rfl⟩
  · exact .inr ⟨_, rfl⟩

theorem SentWithin.dateTime {data : ColumnData} {vlc : VarLenContext} (dt : DateTime)
    (hfits : data.FitsIn (.varLenSized vlc) ↔ 8 = vlc.len) :
    SentWithin (.varLenSized vlc) (do putU8 8; dt.encode) (data.FitsIn (.varLenSized vlc)) := by
  obtain ⟨bytes, hlength, hencode, -⟩ := @DateTime.decode_reads .new dt
  exact sized 8 (by decide) hencode hlength hfits

theorem SentWithin.dateTime2 {data : ColumnData} {vlc : VarLenContext} (dt2 : DateTime2)
    (hfits : data.FitsIn (.varLenSized vlc) ↔ 8 = vlc.len) :
    SentWithin (.varLenSized vlc)
      (do
        let dt ← datetime2ToDatetime dt2
        putU8 8
        dt.encode)
      (data.FitsIn (.varLenSized vlc)) := by
  rcases datetime2ToDatetime_cases dt2 with ⟨error, hfail⟩ | ⟨dt, hdone⟩
  · rw [hfail]
    exact of_fail
  · rw [hdone]
    exact dateTime dt hfits

variable [StdLib] [EncodingRs]

theorem varLen_sentWithin {data : ColumnData} {vlc : VarLenContext}
    (hguid : ∀ bytes, data = .guid (some bytes) → bytes.length = 16)
    (hnullable : (TypeInfo.varLenSized vlc).IsNullable) :
    SentWithin (.varLenSized vlc) (data.encodeVarLen vlc) (data.FitsIn (.varLenSized vlc)) := by
  obtain ⟨type, len, collation⟩ := vlc
  cases type
  case bitn =>
    cases data
    case bit value => exact .nullable (by decide) fun _ _ => rfl
    all_goals exact .of_fail
  case intn =>
    cases data
    case u8 value => exact .nullable (by decide) fun _ _ => rfl
    case i16 value => exact .nullable (by decide) fun _ _ => rfl
    case i32 value => exact .nullable (by decide) fun _ _ => rfl
    case i64 value => exact .nullable (by decide) fun _ _ => rfl
    all_goals exact .of_fail
  case floatn =>
    cases data
    case f32 bits => exact .nullable (by decide) fun _ _ => rfl
    case f64 bits => exact .nullable (by decide) fun _ _ => rfl
    all_goals exact .of_fail
  case guid =>
    cases data
    case guid bytes =>
      refine .nullable (by decide) ?_
      rintro guid rfl
      exact (reorderBytes_length guid).trans (hguid guid rfl)
    all_goals exact .of_fail
  case money =>
    cases data
    case f64 bits =>
      cases bits with
      | none => exact .null (.inl rfl)
      | some bits => exact .money (fits_iff (fun h => by cases h) Iff.rfl)
    case numeric value =>
      cases value with
      | none => exact .null (.inl rfl)
      | some num => exact .moneyNumeric (fits_iff (fun h => by cases h) Iff.rfl)
    all_goals exact .of_fail
  case datetimen =>
    cases data
    case dateTime value =>
      cases value with
      | none => exact .null (.inl rfl)
      | some dt => exact .dateTime dt (fits_iff (fun h => by cases h) Iff.rfl)
    case smallDateTime value =>
      cases value with
      | none => exact .null (.inl rfl)
      | some dt =>
        obtain ⟨bytes, hlength, hencode, -⟩ := @SmallDateTime.decode_reads .new dt
        exact .sized 4 (by decide) hencode hlength (fits_iff (fun h => by cases h) Iff.rfl)
    case dateTime2 value =>
      cases value with
      | none => exact .null (.inl rfl)
      | some dt2 => exact .dateTime2 dt2 (fits_iff (fun h => by cases h) Iff.rfl)
    all_goals exact .of_fail
  all_goals exact hnullable.elim

theorem precision_sentWithin {data : ColumnData} {column : VarLenType} {size : ℕ}
    {precision scale : UInt8} (hcolumn : column = .decimaln ∨ column = .numericn)
    (hscale : scale ≤ 38) :
    SentWithin (.varLenSizedPrecision column size precision scale)
      (data.encode (some (.varLenSizedPrecision column size precision scale)))
      (data.FitsIn (.varLenSizedPrecision column size precision scale)) := by
  have hnull : SentWithin (.varLenSizedPrecision column size precision scale) (putU8 0) True :=
    .of_done (iff_of_true (TypeInfo.conforms_cons.mpr ⟨rfl, .inl rfl⟩) trivial)
  cases data
  case numeric value =>
    cases value with
    | none => rcases hcolumn with rfl | rfl <;> exact hnull
    | some num => rcases hcolumn with rfl | rfl <;> exact .number hscale
  all_goals rcases hcolumn with rfl | rfl <;> exact .of_fail

/-- What goes out under a nullable column of a fixed width conforms to the column
exactly when the value fits it, and no value makes the encoder panic. -/
theorem nullable_sentWithin (env : Context) (bytes rest : List UInt8) (ty : TypeInfo)
    (hdecode : TypeInfo.decode.run env bytes = .done ty rest) (hnullable : ty.IsNullable)
    (data : ColumnData) (hguid : ∀ guid, data = .guid (some guid) → guid.length = 16) :
    SentWithin ty (data.encode (some ty)) (data.FitsIn ty) := by
  cases ty with
  | varLenSized vlc => exact varLen_sentWithin hguid hnullable
  | varLenSizedPrecision column size precision scale =>
    obtain ⟨used, -, hreads⟩ := reads_of_run hdecode
    obtain ⟨hcolumn, hprecision, hscale⟩ := TypeInfo.precision_of_decode hreads
    exact precision_sentWithin hcolumn (UInt8.le_trans hscale hprecision)
  | _ => exact hnullable.elim

end Columns

/-- Nine tenths in a column of nine digits, all of them behind the point. -/
theorem nullable_sentWithin_fraction :
    @SentWithin (.varLenSizedPrecision .numericn 5 9 9)
      (@ColumnData.encode .exact .ascii
        (.numeric (some ⟨9, 1, by decide, by decide, by decide⟩))
        (some (.varLenSizedPrecision .numericn 5 9 9)))
      ((ColumnData.numeric (some ⟨9, 1, by decide, by decide, by decide⟩)).FitsIn
        (.varLenSizedPrecision .numericn 5 9 9)) :=
  @nullable_sentWithin .exact .ascii .new [0x6C, 5, 9, 9] [] _ rfl trivial _
    (fun guid hguid => by cases hguid)

/-- An `int` goes out in four bytes under a column of eight. -/
theorem nullable_width_mismatch :
    ¬ ∀ (env : Context) (header rest : List UInt8) (ty : TypeInfo) (data : ColumnData)
      (bytes : List UInt8), TypeInfo.decode.run env header = .done ty rest → ty.IsNullable →
        @ColumnData.encode .exact .ascii data (some ty) = .done bytes () → ty.Conforms bytes := by
  intro hconforms
  have hbytes := hconforms .new [0x26, 8] []
    (.varLenSized { type := .intn, len := 8, collation := none }) (.i32 (some 1)) [4, 1, 0, 0, 0]
    rfl trivial rfl
  rcases (TypeInfo.conforms_cons.mp hbytes).2 with hzero | hwidth
  · exact absurd hzero (by decide)
  · exact absurd hwidth (by decide)

end Tiberius
