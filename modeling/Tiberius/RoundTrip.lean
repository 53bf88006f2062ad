import Tiberius.Encoders
import Tiberius.PlpChunks

/-!
A value that has been encoded without a column is read back. The encoder writes
its own description in front of each value, arm by arm, while the decoder goes
by the description it has read; the two meet on every value that a procedure
call takes as a parameter, on both sides of the sizes from which strings and
byte strings go out in chunks.
-/

namespace Tiberius

open Reading Reader Program Writing Writer

section Headers

variable {env : Context}

theorem readU8_len (len : UInt8) :
    (readU8.bind fun len => ret len.toNat).Reads env [len] len.toNat :=
  (readU8_put _).bind_last rfl

theorem readU16Le_len (len : UInt16) :
    (readU16Le.bind fun len => ret len.toNat).Reads env (toLe 2 len.toNat) len.toNat :=
  (readU16Le_reads.mpr rfl).bind_last rfl

/-- The types of the untyped encoder whose description is a length of one byte. -/
def byteLenTypes : List VarLenType :=
  [.bitn, .intn, .floatn, .guid, .datetimen, .timen, .datetime2, .datetimeOffsetn]

theorem decode_byteLen {ty : VarLenType} (hty : ty ∈ byteLenTypes) (len : UInt8) :
    TypeInfo.decode.Reads env [ty.toByte, len]
      (.varLenSized { type := ty, len := len.toNat, collation := none }) := by
  have hbyte : readU8.Reads env [ty.toByte] ty.toByte := readU8_put _
  simp only [byteLenTypes, List.mem_cons, List.not_mem_nil, or_false] at hty
  rcases hty with rfl | rfl | rfl | rfl | rfl | rfl | rfl | rfl
  all_goals exact hbyte.bind ((readU8_len len).bind_last rfl)

theorem decode_daten : TypeInfo.decode.Reads env [VarLenType.daten.toByte]
    (.varLenSized { type := .daten, len := 3, collation := none }) := rfl

/-- The description of a string, with the collation left to the server. -/
theorem decode_nvarchar (len : UInt16) :
    TypeInfo.decode.Reads env (VarLenType.nvarchar.toByte :: (toLe 2 len.toNat ++ List.replicate 5 0))
      (.varLenSized
        { type := .nvarchar, len := len.toNat, collation := some { info := 0, sortId := 0 } }) := by
  have hbyte : readU8.Reads env [VarLenType.nvarchar.toByte] _ := readU8_put _
  exact hbyte.bind ((readU16Le_len len).bind rfl)

theorem decode_bigVarBin (len : UInt16) :
    TypeInfo.decode.Reads env (VarLenType.bigVarBin.toByte :: toLe 2 len.toNat)
      (.varLenSized { type := .bigVarBin, len := len.toNat, collation := none }) := by
  have hbyte : readU8.Reads env [VarLenType.bigVarBin.toByte] _ := readU8_put _
  exact hbyte.bind ((readU16Le_len len).bind_last rfl)

theorem decode_numericn {len precision scale : UInt8} (hprecision : precision ≤ 38)
    (hscale : scale ≤ precision) :
    TypeInfo.decode.Reads env [VarLenType.numericn.toByte, len, precision, scale]
      (.varLenSizedPrecision .numericn len.toNat precision scale) := by
  have hbyte : readU8.Reads env [VarLenType.numericn.toByte] _ := readU8_put _
  have hvalid : ¬ (precision > 38 ∨ scale > precision) := by
    rw [not_or, UInt8.not_lt, UInt8.not_lt]
    exact ⟨hprecision, hscale⟩
  refine hbyte.bind ((readU8_len len).bind ?_)
  have hprec : readU8.Reads env [precision] precision := readU8_put _
  refine hprec.bind ((readU8_put _).bind_last ?_)
  rw [if_neg hvalid]
  exact ret_reads _

end Headers

theorem reorderBytes_length (bytes : List UInt8) : (reorderBytes bytes).length = bytes.length := by
  fun_cases reorderBytes bytes with
  | case1 => rfl
  | case2 => rfl

theorem reorderBytes_reorderBytes (bytes : List UInt8) :
    reorderBytes (reorderBytes bytes) = bytes := by
  fun_cases reorderBytes bytes with
  | case1 => rfl
  | case2 _ hshort => exact reorderBytes.eq_2 _ hshort

section Temporal

variable {env : Context}

/-- A time whose increments fit the width of its scale. -/
def Time.Fits (time : Time) : Prop :=
  time.scale ≤ 2 ∧ time.increments.toNat < 256 ^ 3 ∨
    (3 ≤ time.scale ∧ time.scale ≤ 4) ∧ time.increments.toNat < 256 ^ 4 ∨
      (5 ≤ time.scale ∧ time.scale ≤ 7) ∧ time.increments.toNat < 256 ^ 5

theorem DateTime.decode_reads (dt : DateTime) :
    ∃ bytes, bytes.length = 8 ∧ dt.encode = .done bytes () ∧
      DateTime.decode.Reads env bytes dt := by
  refine ⟨toLe 4 dt.days.toUInt32.toNat ++ toLe 4 dt.secondsFragments.toNat, rfl, rfl, ?_⟩
  exact (readI32Le_reads.mpr rfl).bind ((readU32Le_reads.mpr rfl).bind_last rfl)

theorem SmallDateTime.decode_reads (dt : SmallDateTime) :
    ∃ bytes, bytes.length = 4 ∧ dt.encode = .done bytes () ∧
      SmallDateTime.decode.Reads env bytes dt := by
  refine ⟨toLe 2 dt.days.toNat ++ toLe 2 dt.secondsFragments.toNat, rfl, rfl, ?_⟩
  exact (readU16Le_reads.mpr rfl).bind ((readU16Le_reads.mpr rfl).bind_last rfl)

theorem Date.decode_reads {date : Date} (hdate : date.days.toNat < 2 ^ 24) :
    date.encode = .done (toLe 3 date.days.toNat) () ∧
      Date.decode.Reads env (toLe 3 date.days.toNat) date := by
  have hbytes : date.days.toNat < 256 ^ 3 := hdate
  have hdays : getU32Le (toLe 3 date.days.toNat) = date.days := by
    rw [getU32Le, leNat_toLe, Nat.mod_eq_of_lt hbytes, UInt32.ofNat_toNat]
  have hshift : date.days >>> 24 = 0 := by
    apply UInt32.toNat.inj
    rw [UInt32.toNat_shiftRight, Nat.shiftRight_eq_div_pow]
    exact Nat.div_eq_of_lt hdate
  constructor
  · rw [Date.encode, if_neg (by omega)]
    rfl
  · have hread : (readExact 3).Reads env (toLe 3 date.days.toNat) _ :=
      readExact_reads.mpr ⟨toLe_length 3 _, rfl⟩
    refine hread.bind_last ?_
    rw [Date.new, hdays, if_pos hshift]
    exact ret_reads _

/-- A low part and a byte above it make up a number. -/
theorem or_shiftLeft {low high : UInt64} {value : ℕ} (shift : ℕ) (hshift : shift < 64)
    (hlow : low.toNat = value % 2 ^ shift) (hhigh : high.toNat = value / 2 ^ shift)
    (hvalue : value < 2 ^ 64) :
    (low ||| high <<< UInt64.ofNat shift).toNat = value := by
  have hmod : (UInt64.ofNat shift).toNat % 64 = shift := by
    rw [UInt64.toNat_ofNat']
    omega
  have hpos : 0 < 2 ^ shift := Nat.pow_pos (by decide)
  have hsplit := Nat.div_add_mod value (2 ^ shift)
  have hshifted : (value / 2 ^ shift) <<< shift = 2 ^ shift * (value / 2 ^ shift) := by
    rw [Nat.shiftLeft_eq, Nat.mul_comm]
  have hfits : (value / 2 ^ shift) <<< shift % 2 ^ 64 = (value / 2 ^ shift) <<< shift := by
    apply Nat.mod_eq_of_lt
    omega
  rw [UInt64.toNat_or, UInt64.toNat_shiftLeft, hmod, hlow, hhigh, hfits, Nat.or_comm,
    ← Nat.shiftLeft_add_eq_or_of_lt (Nat.mod_lt value hpos), hshifted]
  exact hsplit

/-- The two fields of a time of three bytes. -/
theorem increments3_reads {increments : UInt64} (hincrements : increments.toNat < 256 ^ 3) :
    ∃ hi lo, readU16Le.Reads env (toLe 2 increments.toNat) hi ∧
      readU8.Reads env (toLe 1 (increments.toNat / 256 ^ 2)) lo ∧
        hi.toUInt64 ||| lo.toUInt64 <<< 16 = increments := by
  refine ⟨increments.toUInt16, UInt8.ofNat (increments.toNat / 256 ^ 2), ?_, readU8_put _, ?_⟩
  · rw [readU16Le_reads, ← toLe_mod]
    rfl
  · apply UInt64.toNat.inj
    refine or_shiftLeft 16 (by decide) rfl ?_ increments.toNat_lt
    rw [UInt8.toNat_toUInt64, UInt8.toNat_ofNat']
    omega

/-- The two fields of a time of five bytes. -/
theorem increments5_reads {increments : UInt64} (hincrements : increments.toNat < 256 ^ 5) :
    ∃ hi lo, readU32Le.Reads env (toLe 4 increments.toNat) hi ∧
      readU8.Reads env (toLe 1 (increments.toNat / 256 ^ 4)) lo ∧
        hi.toUInt64 ||| lo.toUInt64 <<< 32 = increments := by
  refine ⟨increments.toUInt32, UInt8.ofNat (increments.toNat / 256 ^ 4), ?_, readU8_put _, ?_⟩
  · rw [readU32Le_reads, ← toLe_mod]
    rfl
  · apply UInt64.toNat.inj
    refine or_shiftLeft 32 (by decide) rfl ?_ increments.toNat_lt
    rw [UInt8.toNat_toUInt64, UInt8.toNat_ofNat']
    omega

theorem Time.encode_of_len {time : Time} {width : UInt8} (hlen : time.len = .done [] width)
    (hfits : time.increments.toNat < 256 ^ width.toNat) :
    time.encode = .done (toLe width.toNat time.increments.toNat) () := by
  rw [Time.encode, hlen, Written.bind_eq, Written.done_bind, if_neg (by omega)]
  rfl

/-- A width of three to five bytes with more bytes behind it. -/
theorem width_add {width extra : UInt8} (hlow : 3 ≤ width) (hhigh : width ≤ 5)
    (hextra : extra ≤ 5) :
    width + extra ≠ 0 ∧ ¬ width + extra < extra ∧
      (width + extra).toNat - extra.toNat = width.toNat := by
  rw [UInt8.le_iff_toNat_le] at hlow hhigh hextra
  simp only [UInt8.reduceToNat] at hlow hhigh hextra
  have hsum : (width + extra).toNat = width.toNat + extra.toNat := by
    rw [UInt8.toNat_add]
    omega
  refine ⟨?_, ?_, by omega⟩
  · intro hzero
    rw [hzero] at hsum
    have hnone : (0 : UInt8).toNat = 0 := rfl
    omega
  · rw [UInt8.lt_iff_toNat_lt]
    omega

theorem Time.decode_three {time : Time} (htwo : time.scale.toNat ≤ 2)
    (hfits : time.increments.toNat < 256 ^ 3) :
    (Time.decode time.scale.toNat 3).Reads env (toLe 3 time.increments.toNat) time := by
  have hbytes : toLe 3 time.increments.toNat =
      toLe 2 time.increments.toNat ++ toLe 1 (time.increments.toNat / 256 ^ 2) := toLe_add 2 1 _
  obtain ⟨hi, lo, hhi, hlo, hvalue⟩ := @increments3_reads env time.increments hfits
  rw [Time.decode, if_pos ⟨htwo, rfl⟩, UInt8.ofNat_toNat, hbytes]
  refine hhi.bind (hlo.bind_last ?_)
  exact reads_ret.mpr ⟨rfl, by rw [hvalue]⟩

theorem Time.decode_four {time : Time} (hthree : 3 ≤ time.scale.toNat)
    (hfour : time.scale.toNat ≤ 4) (hfits : time.increments.toNat < 256 ^ 4) :
    (Time.decode time.scale.toNat 4).Reads env (toLe 4 time.increments.toNat) time := by
  have hread : readU32Le.Reads env (toLe 4 time.increments.toNat) time.increments.toUInt32 := by
    rw [readU32Le_reads, ← toLe_mod]
    rfl
  have hvalue : time.increments.toUInt32.toUInt64 = time.increments := by
    apply UInt64.toNat.inj
    exact Nat.mod_eq_of_lt hfits
  rw [Time.decode, if_neg (by omega), if_pos ⟨hthree, hfour, rfl⟩, UInt8.ofNat_toNat]
  refine hread.bind_last ?_
  exact reads_ret.mpr ⟨rfl, by rw [hvalue]⟩

theorem Time.decode_five {time : Time} (hfive : 5 ≤ time.scale.toNat)
    (hseven : time.scale.toNat ≤ 7) (hfits : time.increments.toNat < 256 ^ 5) :
    (Time.decode time.scale.toNat 5).Reads env (toLe 5 time.increments.toNat) time := by
  have hbytes : toLe 5 time.increments.toNat =
      toLe 4 time.increments.toNat ++ toLe 1 (time.increments.toNat / 256 ^ 4) := toLe_add 4 1 _
  obtain ⟨hi, lo, hhi, hlo, hvalue⟩ := @increments5_reads env time.increments hfits
  rw [Time.decode, if_neg (by omega), if_neg (by omega), if_pos ⟨hfive, hseven, rfl⟩,
    UInt8.ofNat_toNat, hbytes]
  refine hhi.bind (hlo.bind_last ?_)
  exact reads_ret.mpr ⟨rfl, by rw [hvalue]⟩

/-- A time is read back at its scale and width. -/
theorem Time.decode_reads {time : Time} (htime : time.Fits) :
    ∃ width : UInt8, 3 ≤ width ∧ width ≤ 5 ∧ time.len = .done [] width ∧
      time.encode = .done (toLe width.toNat time.increments.toNat) () ∧
        (Time.decode time.scale.toNat width.toNat).Reads env
          (toLe width.toNat time.increments.toNat) time := by
  rcases htime with ⟨htwo, hfits⟩ | ⟨⟨hthree, hfour⟩, hfits⟩ | ⟨⟨hfive, hseven⟩, hfits⟩
  · have hlen : time.len = .done [] 3 := by
      rw [Time.len, if_pos htwo]
      rfl
    refine ⟨3, by decide, by decide, hlen, encode_of_len hlen hfits, ?_⟩
    exact decode_three (UInt8.le_iff_toNat_le.mp htwo) hfits
  · have hlow : 3 ≤ time.scale.toNat := UInt8.le_iff_toNat_le.mp hthree
    have htwo : ¬ time.scale ≤ 2 := by
      rw [UInt8.le_iff_toNat_le]
      exact Nat.not_le_of_lt hlow
    have hlen : time.len = .done [] 4 := by
      rw [Time.len, if_neg htwo, if_pos hfour]
      rfl
    refine ⟨4, by decide, by decide, hlen, encode_of_len hlen hfits, ?_⟩
    exact decode_four hlow (UInt8.le_iff_toNat_le.mp hfour) hfits
  · have hlow : 5 ≤ time.scale.toNat := UInt8.le_iff_toNat_le.mp hfive
    have htwo : ¬ time.scale ≤ 2 := by
      rw [UInt8.le_iff_toNat_le]
      exact Nat.not_le_of_lt (Nat.lt_of_lt_of_le (by decide) hlow)
    have hfour : ¬ time.scale ≤ 4 := by
      rw [UInt8.le_iff_toNat_le]
      exact Nat.not_le_of_lt hlow
    have hlen : time.len = .done [] 5 := by
      rw [Time.len, if_neg htwo, if_neg hfour, if_pos hseven]
      rfl
    refine ⟨5, by decide, by decide, hlen, encode_of_len hlen hfits, ?_⟩
    exact decode_five hlow (UInt8.le_iff_toNat_le.mp hseven) hfits

/-- The bytes of a time of some width with those of its date. -/
def DateTime2.bytes (dt : DateTime2) (width : ℕ) : List UInt8 :=
  toLe width dt.time.increments.toNat ++ toLe 3 dt.date.days.toNat

def DateTimeOffset.bytes (dto : DateTimeOffset) (width : ℕ) : List UInt8 :=
  dto.datetime2.bytes width ++ toLe 2 dto.offset.toUInt16.toNat

theorem DateTime2.bytes_length (dt : DateTime2) (width : ℕ) :
    (dt.bytes width).length = width + 3 := by
  rw [DateTime2.bytes, List.length_append, toLe_length, toLe_length]

theorem DateTimeOffset.bytes_length (dto : DateTimeOffset) (width : ℕ) :
    (dto.bytes width).length = width + 5 := by
  rw [DateTimeOffset.bytes, List.length_append, DateTime2.bytes_length, toLe_length]

theorem DateTime2.decode_reads {dt : DateTime2} (htime : dt.time.Fits)
    (hdate : dt.date.days.toNat < 2 ^ 24) :
    ∃ width : UInt8, 3 ≤ width ∧ width ≤ 5 ∧ dt.time.len = .done [] width ∧
      dt.encode = .done (dt.bytes width.toNat) () ∧
        (DateTime2.decode dt.time.scale.toNat width.toNat).Reads env (dt.bytes width.toNat) dt := by
  obtain ⟨width, hlow, hhigh, hlen, hencode, hreads⟩ := @Time.decode_reads env dt.time htime
  obtain ⟨hdateEncode, hdateReads⟩ := @Date.decode_reads env dt.date hdate
  refine ⟨width, hlow, hhigh, hlen, ?_, hreads.bind (hdateReads.bind_last rfl)⟩
  rw [DateTime2.encode, hencode, hdateEncode]
  rfl

theorem DateTimeOffset.decode_reads {dto : DateTimeOffset} (htime : dto.datetime2.time.Fits)
    (hdate : dto.datetime2.date.days.toNat < 2 ^ 24) :
    ∃ width : UInt8, 3 ≤ width ∧ width ≤ 5 ∧ dto.datetime2.time.len = .done [] width ∧
      dto.encode = .done (dto.bytes width.toNat) () ∧
        (DateTimeOffset.decode dto.datetime2.time.scale.toNat width.toNat).Reads env
          (dto.bytes width.toNat) dto := by
  obtain ⟨width, hlow, hhigh, hlen, hencode, hreads⟩ :=
    @DateTime2.decode_reads env dto.datetime2 htime hdate
  refine ⟨width, hlow, hhigh, hlen, ?_, hreads.bind ((readI16Le_reads.mpr rfl).bind_last rfl)⟩
  rw [DateTimeOffset.encode, hencode]
  rfl

end Temporal

section Numerics

variable {env : Context}

/-- The count of digits is the least one that bounds a number. -/
theorem countDigits_le_iff {fuel n digits : ℕ} (hfuel : n ≤ fuel) :
    countDigits fuel n ≤ digits ↔ n < 10 ^ digits := by
  induction fuel generalizing n digits with
  | zero =>
    obtain rfl : n = 0 := by omega
    exact iff_of_true (Nat.zero_le _) (Nat.pow_pos (by decide))
  | succ fuel ih =>
    rw [countDigits]
    split_ifs with hzero
    · subst hzero
      exact iff_of_true (Nat.zero_le _) (Nat.pow_pos (by decide))
    · cases digits with
      | zero =>
        rw [Nat.pow_zero]
        omega
      | succ digits =>
        rw [Nat.add_le_add_iff_right, ih (by omega), Nat.pow_succ,
          Nat.div_lt_iff_lt_mul (by decide)]

namespace Numeric

theorem intPart_natAbs (num : Numeric) :
    num.intPart.natAbs = num.value.natAbs / 10 ^ num.scale.toNat := by
  rw [intPart, Int.natAbs_tdiv, powScale, Int.natAbs_pow]
  rfl

/-- The precision counts the digits in front of the point, at least one, and those
behind it. -/
theorem precision_le_iff {num : Numeric} {digits : ℕ} :
    num.precision ≤ digits ↔ num.scale.toNat < digits ∧ num.value.natAbs < 10 ^ digits := by
  have hcount : ∀ count, countDigits num.intPart.natAbs num.intPart.natAbs ≤ count ↔
      num.value.natAbs < 10 ^ (count + num.scale.toNat) := by
    intro count
    rw [countDigits_le_iff (Nat.le_refl _), num.intPart_natAbs,
      Nat.div_lt_iff_lt_mul (Nat.pow_pos (by decide)), Nat.pow_add]
  rw [precision]
  constructor
  · intro hle
    have hscale : num.scale.toNat < digits := by
      split_ifs at hle <;> omega
    have hdigits := hcount (digits - num.scale.toNat)
    rw [Nat.sub_add_cancel (Nat.le_of_lt hscale)] at hdigits
    refine ⟨hscale, hdigits.mp ?_⟩
    split_ifs at hle <;> omega
  · rintro ⟨hscale, hvalue⟩
    have hdigits := hcount (digits - num.scale.toNat)
    rw [Nat.sub_add_cancel (Nat.le_of_lt hscale)] at hdigits
    have hle := hdigits.mpr hvalue
    split_ifs <;> omega

theorem scale_le_precision (num : Numeric) : num.scale.toNat ≤ num.precision :=
  Nat.le_of_lt (precision_le_iff.mp (Nat.le_refl num.precision)).1

theorem natAbs_lt (num : Numeric) : num.value.natAbs < 10 ^ num.precision :=
  (precision_le_iff.mp (Nat.le_refl num.precision)).2

/-- The length of a value leaves room for its magnitude. -/
theorem len_cases (num : Numeric) :
    (num.len = 5 ∧ num.value.natAbs < 2 ^ 32) ∨ (num.len = 9 ∧ num.value.natAbs < 2 ^ 64) ∨
      (num.len = 13 ∧ num.value.natAbs < 256 ^ 12) ∨
        (num.len = 17 ∧ num.value.natAbs < 256 ^ 16) := by
  have hlow := num.value_ge
  have hhigh := num.value_lt
  have hle : ∀ bound, num.precision ≤ bound → num.value.natAbs < 10 ^ bound := fun bound hbound =>
    Nat.lt_of_lt_of_le num.natAbs_lt (Nat.pow_le_pow_right (by decide) hbound)
  rw [len]
  split_ifs with hnine hnineteen htwentyeight
  · exact .inl ⟨rfl, Nat.lt_of_lt_of_le (hle 9 hnine.2) (by decide)⟩
  · exact .inr (.inl ⟨rfl, Nat.lt_of_lt_of_le (hle 19 hnineteen.2) (by decide)⟩)
  · exact .inr (.inr (.inl ⟨rfl, Nat.lt_of_lt_of_le (hle 28 htwentyeight.2) (by decide)⟩))
  · exact .inr (.inr (.inr ⟨rfl, by omega⟩))

def signByte (num : Numeric) : UInt8 := if num.value < 0 then 0 else 1

theorem signOf_signByte (num : Numeric) :
    ∃ sign : ℤ, signOf num.signByte = some sign ∧ num.value.natAbs * sign = num.value := by
  rw [signByte]
  split_ifs with hnegative
  · refine ⟨-1, rfl, ?_⟩
    omega
  · refine ⟨1, rfl, ?_⟩
    omega

theorem newWithScale_self (num : Numeric) : newWithScale num.value num.scale = .ok num := by
  rw [newWithScale, dif_pos ⟨⟨num.value_ge, num.value_lt⟩, num.scale_le⟩]

theorem ofExcept_reads (num : Numeric) :
    (Program.ofExcept (newWithScale num.value num.scale) : Reader Numeric).Reads env [] num := by
  rw [newWithScale_self]
  exact ret_reads _

theorem decode_reads {num : Numeric} (hvalue : num.value ≠ -2 ^ 127) :
    ∃ bytes, num.encode = .done bytes () ∧ (decode num.scale).Reads env bytes (some num) := by
  obtain ⟨sign, hsign, hsigned⟩ := num.signOf_signByte
  have hbyte := @readU8_put env num.signByte
  have hlast : (Program.ofExcept (newWithScale (num.value.natAbs * sign) num.scale) >>=
      fun value => pure (some value) : Reader (Option Numeric)).Reads env [] (some num) := by
    rw [hsigned]
    exact (ofExcept_reads num).bind_last (ret_reads _)
  rcases num.len_cases with ⟨h, hlt⟩ | ⟨h, hlt⟩ | ⟨h, hlt⟩ | ⟨h, hlt⟩
  · refine ⟨[5] ++ ([num.signByte] ++ toLe 4 num.value.natAbs), ?_, ?_⟩
    · rw [encode, h]
      rfl
    · refine (readU8_put 5).bind (hbyte.bind ?_)
      rw [hsign]
      have hread : readU32Le.Reads env (toLe 4 num.value.natAbs) (UInt32.ofNat num.value.natAbs) := by
        rw [readU32Le_reads, UInt32.toNat_ofNat', Nat.mod_eq_of_lt hlt]
      refine hread.bind_last ?_
      rw [UInt32.toNat_ofNat', Nat.mod_eq_of_lt hlt]
      exact hlast
  · refine ⟨[9] ++ ([num.signByte] ++ toLe 8 num.value.natAbs), ?_, ?_⟩
    · rw [encode, h]
      rfl
    · refine (readU8_put 9).bind (hbyte.bind ?_)
      rw [hsign]
      have hread : readU64Le.Reads env (toLe 8 num.value.natAbs) (UInt64.ofNat num.value.natAbs) := by
        rw [readU64Le_reads, UInt64.toNat_ofNat', Nat.mod_eq_of_lt hlt]
      refine hread.bind_last ?_
      rw [UInt64.toNat_ofNat', Nat.mod_eq_of_lt hlt]
      exact hlast
  · refine ⟨[13] ++ ([num.signByte] ++ toLe 12 num.value.natAbs), ?_, ?_⟩
    · rw [encode, h]
      rfl
    · refine (readU8_put 13).bind (hbyte.bind ?_)
      rw [hsign]
      have hread : (readBytesInto 12 12).Reads env (toLe 12 num.value.natAbs) _ :=
        (readBytesInto_reads (by decide)).mpr ⟨toLe_length 12 _, rfl⟩
      refine hread.bind_last ?_
      rw [leNat_toLe, Nat.mod_eq_of_lt hlt]
      exact hlast
  · refine ⟨[17] ++ ([num.signByte] ++ toLe 16 num.value.natAbs), ?_, ?_⟩
    · rw [encode, h]
      rfl
    · refine (readU8_put 17).bind (hbyte.bind ?_)
      rw [hsign]
      have hread : (readBytesInto 16 16).Reads env (toLe 16 num.value.natAbs) _ :=
        (readBytesInto_reads (by decide)).mpr ⟨toLe_length 16 _, rfl⟩
      have hlow := num.value_ge
      have hhigh := num.value_lt
      refine hread.bind_last ?_
      rw [leNat_toLe, Nat.mod_eq_of_lt hlt, if_neg (by omega)]
      exact hlast

end Numeric

end Numerics

section Long

variable {env : Context}

/-- A byte string that the size of its column puts behind a length of two bytes. -/
theorem decodePlp_short {len : ℕ} (hlen : len < 0xffff) {data : List UInt8}
    (hdata : data.length < 0xffff) :
    (decodePlp len).Reads env (toLe 2 (UInt16.ofNat data.length).toNat ++ data) (some data) := by
  have hnat : (UInt16.ofNat data.length).toNat = data.length := by
    rw [UInt16.toNat_ofNat']
    omega
  have hnull : ¬ UInt16.ofNat data.length = 0xffff := by
    intro heq
    rw [heq] at hnat
    exact absurd hnat (Nat.ne_of_gt hdata)
  have hread : (readBytesInto (UInt16.ofNat data.length).toNat maxPrealloc).Reads env data data :=
    (readBytesInto_reads (by decide)).mpr ⟨hnat.symm, rfl⟩
  rw [decodePlp, if_pos hlen]
  refine (readU16Le_reads.mpr rfl).bind ?_
  rw [if_neg hnull]
  exact hread.bind_last rfl

/-- The bytes of a value in one chunk. -/
def chunkBytes (data : List UInt8) : List UInt8 :=
  toLe 8 0xfffffffffffffffe ++ (toLe 4 (UInt32.ofNat data.length).toNat ++
    (data ++ if data.isEmpty then [] else toLe 4 0))

theorem putChunk_eq (data : List UInt8) : putChunk data = .done (chunkBytes data) () := by
  rw [putChunk, chunkBytes]
  cases data with
  | nil => rfl
  | cons byte data =>
    simp only [Written.bind_eq, putU64Le_eq, putU32Le_eq, Written.put_bind, Written.done_bind,
      List.isEmpty_cons, Bool.false_eq_true, if_false, Written.after_done]
    rfl

theorem decodePlp_long {len : ℕ} (hlen : ¬ len < 0xffff) {data : List UInt8}
    (hdata : data.length ≤ maxPlpSize) :
    (decodePlp len).Reads env (chunkBytes data) (some data) := by
  have hnat : (UInt32.ofNat data.length).toNat = data.length := by
    rw [maxPlpSize] at hdata
    rw [UInt32.toNat_ofNat']
    omega
  have hunknown : (0xfffffffffffffffe : UInt64) ≠ 0xffffffffffffffff := by decide
  rw [chunkBytes, hnat]
  cases data with
  | nil =>
    exact decodePlp_chunked (Nat.not_lt.mp hlen) hunknown (List.forall_mem_nil _) hdata []
  | cons byte data =>
    have hpos : ∀ chunk ∈ [byte :: data], chunk ≠ [] := by
      intro chunk hchunk
      rw [List.mem_singleton.mp hchunk]
      exact List.cons_ne_nil _ _
    have hflat : [byte :: data].flatten = byte :: data := List.flatten_singleton
    have hread := @decodePlp_chunked env len _ _ (Nat.not_lt.mp hlen) hunknown hpos
      (by rw [hflat]; exact hdata) []
    rw [hflat, chunksBytes, List.flatMap_singleton, List.append_assoc, List.append_nil] at hread
    exact hread

/-- A character takes no more units than bytes. -/
theorem unitsOf_length_le (c : Char) : (unitsOf c).length ≤ c.utf8Size := by
  by_cases hc : c.toNat < 0x10000
  · rw [unitsOf_small hc]
    exact c.utf8Size_pos
  · have hfour : c.utf8Size = 4 := by
      rw [Char.utf8Size_eq_four_iff, UInt32.lt_iff_toNat_lt]
      exact Nat.lt_of_lt_of_le (by decide) (Nat.le_of_not_lt hc)
    rw [unitsOf_large hc, hfour]
    exact Nat.le_add_right 2 2

theorem units_le_strLen (text : String) : (encodeUtf16 text.toList).length ≤ strLen text := by
  rw [strLen]
  induction text.toList with
  | nil => exact Nat.le_refl 0
  | cons c chars ih =>
    have hc := unitsOf_length_le c
    rw [encodeUtf16_cons, List.length_append, List.foldr_cons]
    omega

end Long

section Parameters

variable [EncodingRs] {env : Context}

/-- The text of a value in UTF-16, whether or not replacement characters are allowed
for. -/
theorem decodeString_reads {ty : VarLenType} (hwide : ¬ (ty = .bigChar ∨ ty = .bigVarChar)) {len : ℕ}
    (collation : Option Collation) {bytes : List UInt8} {text : String}
    (hplp : (decodePlp len).Reads env bytes (some (putUnits (encodeUtf16 text.toList)))) :
    (decodeString ty len collation).Reads env bytes (some text) := by
  have heven : ¬ (putUnits (encodeUtf16 text.toList)).length % 2 ≠ 0 := by
    rw [putUnits_length]
    omega
  have hstrict : fromUtf16 (encodeUtf16 text.toList) = some text := fromUtf16_eq_some_iff.mpr rfl
  refine hplp.bind_last ?_
  show (if ty = .bigChar ∨ ty = .bigVarChar then _ else _ :
    Reader (Option String)).Reads env [] (some text)
  rw [if_neg hwide, if_neg heven, unitsLe_putUnits, hstrict, fromUtf16Lossy_encodeUtf16]
  show (if (_ ∨ _) ∧ env.lossyUtf16 = true then _ else _ : Reader (Option String)).Reads env []
    (some text)
  split_ifs <;> exact ret_reads _

theorem decode_nvarchar_value {len : ℕ} {collation : Option Collation} {bytes : List UInt8}
    {text : String}
    (hplp : (decodePlp len).Reads env bytes (some (putUnits (encodeUtf16 text.toList)))) :
    (ColumnData.decode (.varLenSized { type := .nvarchar, len := len, collation := collation })).Reads
      env bytes (.string (some text)) :=
  (decodeString_reads (by simp) collation hplp).bind_last (ret_reads _)

theorem decode_bigVarBin_value {len : ℕ} {collation : Option Collation} {bytes data : List UInt8}
    (hplp : (decodePlp len).Reads env bytes (some data)) :
    (ColumnData.decode (.varLenSized { type := .bigVarBin, len := len, collation := collation })).Reads
      env bytes (.binary (some data)) :=
  hplp.bind_last (ret_reads _)

/-- A description, and the value that it describes. -/
def decodeTyped : Reader ColumnData := do
  let ty ← TypeInfo.decode
  ColumnData.decode ty

variable [StdLib]

/-- The value goes out without a column, and what goes out is read as the value. -/
def RoundTrips (env : Context) (data : ColumnData) : Prop :=
  ∃ bytes, data.encode none = .done bytes () ∧ decodeTyped.Reads env bytes data

theorem roundTrips_of (header body : List UInt8) {ty : TypeInfo} {data : ColumnData}
    (hencode : data.encode none = .done (header ++ body) ())
    (hheader : TypeInfo.decode.Reads env header ty)
    (hbody : (ColumnData.decode ty).Reads env body data) : RoundTrips env data :=
  ⟨header ++ body, hencode, hheader.bind hbody⟩

section Numbers

/-- The types that send their NULL as a length of zero behind their own description. -/
theorem nullable_roundTrips {α : Type} {make : Option α → ColumnData} {ty : VarLenType}
    {declared len : UInt8} {f : α → List UInt8} (value : Option α)
    (hencode : (make value).encode none = (do
      Written.put [ty.toByte, declared]
      putNullable len (value.map f)))
    (hty : ty ∈ byteLenTypes)
    (hnull : (decodeVarLen { type := ty, len := declared.toNat, collation := none }).Reads env [0]
      (make none))
    (hvalue : ∀ v, value = some v →
      (decodeVarLen { type := ty, len := declared.toNat, collation := none }).Reads env (len :: f v)
        (make (some v))) : RoundTrips env (make value) := by
  cases value with
  | none => exact roundTrips_of [ty.toByte, declared] [0] hencode (decode_byteLen hty declared) hnull
  | some v =>
    exact roundTrips_of [ty.toByte, declared] (len :: f v) hencode (decode_byteLen hty declared)
      (hvalue v rfl)

theorem bit_roundTrips (value : Option Bool) : RoundTrips env (.bit value) := by
  refine nullable_roundTrips value rfl (by decide) rfl ?_
  intro v _
  cases v <;> rfl

theorem u8_roundTrips (value : Option UInt8) : RoundTrips env (.u8 value) := by
  refine nullable_roundTrips value rfl (by decide) rfl ?_
  intro v _
  exact (readU8_put 1).bind ((readU8_put _).bind_last rfl)

theorem i16_roundTrips (value : Option Int16) : RoundTrips env (.i16 value) := by
  refine nullable_roundTrips value rfl (by decide) rfl ?_
  intro v _
  exact (readU8_put 2).bind ((readI16Le_reads.mpr rfl).bind_last rfl)

theorem i32_roundTrips (value : Option Int32) : RoundTrips env (.i32 value) := by
  refine nullable_roundTrips value rfl (by decide) rfl ?_
  intro v _
  exact (readU8_put 4).bind ((readI32Le_reads.mpr rfl).bind_last rfl)

theorem i64_roundTrips (value : Option Int64) : RoundTrips env (.i64 value) := by
  refine nullable_roundTrips value rfl (by decide) rfl ?_
  intro v _
  exact (readU8_put 8).bind ((readI64Le_reads.mpr rfl).bind_last rfl)

theorem f32_roundTrips (bits : Option UInt32) : RoundTrips env (.f32 bits) := by
  refine nullable_roundTrips bits rfl (by decide) rfl ?_
  intro v _
  exact (readU8_put 4).bind ((readU32Le_reads.mpr rfl).bind_last rfl)

theorem f64_roundTrips (bits : Option UInt64) : RoundTrips env (.f64 bits) := by
  refine nullable_roundTrips bits rfl (by decide) rfl ?_
  intro v _
  exact (readU8_put 8).bind ((readU64Le_reads.mpr rfl).bind_last rfl)

theorem guid_roundTrips {bytes : Option (List UInt8)}
    (hbytes : ∀ guid, bytes = some guid → guid.length = 16) : RoundTrips env (.guid bytes) := by
  refine nullable_roundTrips bytes rfl (by decide) rfl ?_
  intro guid hguid
  have hread := (@readBytesInto_reads env (reorderBytes guid) 16 16 (by decide) _).mpr
    ⟨(reorderBytes_length guid).trans (hbytes guid hguid), rfl⟩
  refine (readU8_put 16).bind (hread.bind_last ?_)
  rw [reorderBytes_reorderBytes]
  exact ret_reads _

end Numbers

section Dates

theorem dateTime_roundTrips (dt : DateTime) : RoundTrips env (.dateTime (some dt)) := by
  obtain ⟨bytes, _, hencode, hreads⟩ := @DateTime.decode_reads env dt
  refine roundTrips_of [VarLenType.datetimen.toByte, 8] ([8] ++ bytes) ?_
    (decode_byteLen (by decide) 8) ((readU8_put _).bind (hreads.bind_last rfl))
  exact Written.headed_done [VarLenType.datetimen.toByte, 8, 8] hencode

theorem smallDateTime_roundTrips (dt : SmallDateTime) :
    RoundTrips env (.smallDateTime (some dt)) := by
  obtain ⟨bytes, _, hencode, hreads⟩ := @SmallDateTime.decode_reads env dt
  refine roundTrips_of [VarLenType.datetimen.toByte, 4] ([4] ++ bytes) ?_
    (decode_byteLen (by decide) 4) ((readU8_put _).bind (hreads.bind_last rfl))
  exact Written.headed_done [VarLenType.datetimen.toByte, 4, 4] hencode

theorem date_roundTrips {date : Date} (hdate : date.days.toNat < 2 ^ 24) :
    RoundTrips env (.date (some date)) := by
  obtain ⟨hencode, hreads⟩ := @Date.decode_reads env date hdate
  refine roundTrips_of [VarLenType.daten.toByte] ([3] ++ toLe 3 date.days.toNat) ?_ decode_daten
    ((readU8_put _).bind (hreads.bind_last rfl))
  exact Written.headed_done [VarLenType.daten.toByte, 3] hencode

theorem time_roundTrips {time : Time} (htime : time.Fits) : RoundTrips env (.time (some time)) := by
  obtain ⟨width, hlow, hhigh, hlen, hencode, hreads⟩ := @Time.decode_reads env time htime
  refine roundTrips_of [VarLenType.timen.toByte, time.scale]
    ([width] ++ toLe width.toNat time.increments.toNat) ?_ (decode_byteLen (by decide) time.scale) ?_
  · exact Written.sized_done _ hlen hencode
  · have hzero : width ≠ 0 := by
      rintro rfl
      exact absurd hlow (by decide)
    refine (readU8_put _).bind ?_
    rw [if_neg hzero, if_pos ⟨hlow, hhigh⟩]
    exact hreads.bind_last rfl

theorem dateTime2_roundTrips {dt : DateTime2} (htime : dt.time.Fits)
    (hdate : dt.date.days.toNat < 2 ^ 24) : RoundTrips env (.dateTime2 (some dt)) := by
  obtain ⟨width, hlow, hhigh, hlen, hencode, hreads⟩ :=
    @DateTime2.decode_reads env dt htime hdate
  refine roundTrips_of [VarLenType.datetime2.toByte, dt.time.scale]
    ([width + 3] ++ dt.bytes width.toNat) ?_ (decode_byteLen (by decide) dt.time.scale) ?_
  · exact Written.sized_done _ hlen hencode
  · obtain ⟨hzero, hless, hwidth⟩ := @width_add width 3 hlow hhigh (by decide)
    refine (readU8_put _).bind ?_
    rw [if_neg hzero, if_neg hless, show (width + 3).toNat - 3 = width.toNat from hwidth]
    exact hreads.bind_last rfl

theorem dateTimeOffset_roundTrips {dto : DateTimeOffset} (htime : dto.datetime2.time.Fits)
    (hdate : dto.datetime2.date.days.toNat < 2 ^ 24) :
    RoundTrips env (.dateTimeOffset (some dto)) := by
  obtain ⟨width, hlow, hhigh, hlen, hencode, hreads⟩ :=
    @DateTimeOffset.decode_reads env dto htime hdate
  refine roundTrips_of [VarLenType.datetimeOffsetn.toByte, dto.datetime2.time.scale]
    ([width + 5] ++ dto.bytes width.toNat) ?_ (decode_byteLen (by decide) dto.datetime2.time.scale) ?_
  · exact Written.sized_done _ hlen hencode
  · obtain ⟨hzero, hless, hwidth⟩ := @width_add width 5 hlow hhigh (by decide)
    refine (readU8_put _).bind ?_
    rw [if_neg hzero, if_neg hless, show (width + 5).toNat - 5 = width.toNat from hwidth]
    exact hreads.bind_last rfl

theorem numeric_roundTrips {num : Numeric} (hvalue : num.value ≠ -2 ^ 127)
    (hprecision : num.precision ≤ 38) : RoundTrips env (.numeric (some num)) := by
  obtain ⟨bytes, hencode, hreads⟩ := @Numeric.decode_reads env num hvalue
  have hnat : (UInt8.ofNat num.precision).toNat = num.precision := by
    rw [UInt8.toNat_ofNat']
    omega
  have hle : UInt8.ofNat num.precision ≤ 38 := by
    rw [UInt8.le_iff_toNat_le, hnat]
    exact hprecision
  have hscale : num.scale ≤ UInt8.ofNat num.precision := by
    rw [UInt8.le_iff_toNat_le, hnat]
    exact num.scale_le_precision
  refine roundTrips_of
    [VarLenType.numericn.toByte, num.len, UInt8.ofNat num.precision, num.scale] bytes ?_
    (decode_numericn hle hscale) (hreads.bind_last rfl)
  exact Written.headed_done _ hencode

end Dates

section Strings

theorem string_roundTrips {text : String}
    (htext : (putUnits (encodeUtf16 text.toList)).length ≤ maxPlpSize) :
    RoundTrips env (.string (some text)) := by
  have hunits := units_le_strLen text
  have hlength := putUnits_length (encodeUtf16 text.toList)
  by_cases hshort : strLen text ≤ 4000
  · have hplp := @decodePlp_short env (8000 : UInt16).toNat (by decide)
      (putUnits (encodeUtf16 text.toList)) (by omega)
    refine roundTrips_of _ _ ?_ (decode_nvarchar 8000) (decode_nvarchar_value hplp)
    rw [ColumnData.encode, ColumnData.encodeUntyped, if_pos hshort, hlength, Nat.mul_comm 2]
    simp only [Written.bind_eq, putU8_eq, putU16Le_eq, Written.put_eq, Written.done_bind,
      Written.after_done, List.append_assoc, List.cons_append, List.nil_append]
  · have hplp := @decodePlp_long env (0xffff : UInt16).toNat (by decide)
      (putUnits (encodeUtf16 text.toList)) htext
    refine roundTrips_of _ _ ?_ (decode_nvarchar 0xffff) (decode_nvarchar_value hplp)
    rw [maxPlpSize] at htext
    rw [ColumnData.encode, ColumnData.encodeUntyped, if_neg hshort, if_neg (by omega), putChunk_eq]
    simp only [Written.bind_eq, putU8_eq, putU16Le_eq, Written.put_eq, Written.done_bind,
      Written.after_done, List.append_assoc, List.cons_append, List.nil_append]

theorem binary_roundTrips {bytes : List UInt8} (hbytes : bytes.length ≤ maxPlpSize) :
    RoundTrips env (.binary (some bytes)) := by
  by_cases hshort : bytes.length ≤ 8000
  · have hplp := @decodePlp_short env (8000 : UInt16).toNat (by decide) bytes (by omega)
    refine roundTrips_of _ _ ?_ (decode_bigVarBin 8000) (decode_bigVarBin_value hplp)
    rw [ColumnData.encode, ColumnData.encodeUntyped, if_pos hshort]
    simp only [Written.bind_eq, putU8_eq, putU16Le_eq, Written.put_eq, Written.done_bind,
      Written.after_done, List.cons_append, List.nil_append]
  · have hplp := @decodePlp_long env (0xffff : UInt16).toNat (by decide) bytes hbytes
    refine roundTrips_of _ _ ?_ (decode_bigVarBin 0xffff) (decode_bigVarBin_value hplp)
    rw [ColumnData.encode, ColumnData.encodeUntyped, if_neg hshort, putChunk_eq]
    simp only [Written.bind_eq, putU8_eq, putU16Le_eq, Written.done_bind,
      Written.after_done, List.cons_append, List.nil_append]

end Strings

namespace ColumnData

def IsNull : ColumnData → Prop
  | u8 value => value = none
  | i16 value => value = none
  | i32 value => value = none
  | i64 value => value = none
  | f32 bits => bits = none
  | f64 bits => bits = none
  | bit value => value = none
  | string value => value = none
  | guid bytes => bytes = none
  | binary bytes => bytes = none
  | numeric value => value = none
  | xml value => value = none
  | dateTime value => value = none
  | smallDateTime value => value = none
  | time value => value = none
  | date value => value = none
  | dateTime2 value => value = none
  | dateTimeOffset value => value = none

/-- The values that a procedure call takes as parameters, other than XML. A `guid`
has 16 bytes and a date fits three, as their types in the driver have it; the
bytes of a text are those it has on the wire. -/
def Sendable : ColumnData → Prop
  | xml _ => False
  | numeric (some num) => num.value ≠ -2 ^ 127 ∧ num.precision ≤ 38
  | time (some value) => value.Fits
  | date (some value) => value.days.toNat < 2 ^ 24
  | dateTime2 (some value) => value.time.Fits ∧ value.date.days.toNat < 2 ^ 24
  | dateTimeOffset (some value) =>
    value.datetime2.time.Fits ∧ value.datetime2.date.days.toNat < 2 ^ 24
  | string (some text) => (putUnits (encodeUtf16 text.toList)).length ≤ maxPlpSize
  | binary (some bytes) => bytes.length ≤ maxPlpSize
  | guid (some bytes) => bytes.length = 16
  | _ => True

end ColumnData

/-- The value goes out without a column, and what goes out is read to its last
byte as the value, or as some NULL for a NULL. -/
def ReadsBack (env : Context) (data : ColumnData) : Prop :=
  ∃ bytes back, data.encode none = .done bytes () ∧ decodeTyped.run env bytes = .done back [] ∧
    (back = data ∨ data.IsNull ∧ back.IsNull)

/-- A NULL without a type of its own is read as the NULL of an integer. -/
theorem readsBack_null {data : ColumnData} (hnull : data.IsNull)
    (hencode : data.encode none = .done [FixedLenType.null.toByte] ()) : ReadsBack env data :=
  ⟨_, .i32 none, hencode, rfl, .inr ⟨hnull, rfl⟩⟩

theorem RoundTrips.back {data : ColumnData} (hdata : RoundTrips env data) : ReadsBack env data := by
  obtain ⟨bytes, hencode, hreads⟩ := hdata
  exact ⟨bytes, data, hencode, hreads, .inl rfl⟩

/-- Every value that is sent as a parameter is read back from what is sent. -/
theorem parameters_read_back (env : Context) (data : ColumnData) (hdata : data.Sendable) :
    ReadsBack env data := by
  cases data with
  | u8 value => exact (u8_roundTrips value).back
  | i16 value => exact (i16_roundTrips value).back
  | i32 value => exact (i32_roundTrips value).back
  | i64 value => exact (i64_roundTrips value).back
  | f32 bits => exact (f32_roundTrips bits).back
  | f64 bits => exact (f64_roundTrips bits).back
  | bit value => exact (bit_roundTrips value).back
  | string value =>
    cases value with
    | none => exact readsBack_null rfl rfl
    | some text => exact (string_roundTrips hdata).back
  | guid bytes =>
    refine (guid_roundTrips ?_).back
    rintro guid rfl
    exact hdata
  | binary bytes =>
    cases bytes with
    | none => exact readsBack_null rfl rfl
    | some bytes => exact (binary_roundTrips hdata).back
  | numeric value =>
    cases value with
    | none => exact readsBack_null rfl rfl
    | some num => exact (numeric_roundTrips hdata.1 hdata.2).back
  | xml value => exact hdata.elim
  | dateTime value =>
    cases value with
    | none => exact readsBack_null rfl rfl
    | some dt => exact (dateTime_roundTrips dt).back
  | smallDateTime value =>
    cases value with
    | none => exact readsBack_null rfl rfl
    | some dt => exact (smallDateTime_roundTrips dt).back
  | time value =>
    cases value with
    | none => exact readsBack_null rfl rfl
    | some time => exact (time_roundTrips hdata).back
  | date value =>
    cases value with
    | none => exact readsBack_null rfl rfl
    | some date => exact (date_roundTrips hdata).back
  | dateTime2 value =>
    cases value with
    | none => exact readsBack_null rfl rfl
    | some dt => exact (dateTime2_roundTrips hdata.1 hdata.2).back
  | dateTimeOffset value =>
    cases value with
    | none => exact readsBack_null rfl rfl
    | some dto => exact (dateTimeOffset_roundTrips hdata.1 hdata.2).back

end Parameters

theorem parameters_read_back_numeric :
    @ReadsBack .ascii .exact .new (.numeric (some ⟨-12345, 2, by decide, by decide, by decide⟩)) :=
  @parameters_read_back .ascii .exact .new _ ⟨by decide, by decide⟩

end Tiberius
