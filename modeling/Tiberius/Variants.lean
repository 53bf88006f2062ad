import Tiberius.RoundTrip

/-!
The values of `sql_variant` columns. Such a value brings its own base type, the
properties of that type and a total length; what is left of the total length
once the properties are taken off is the width of the value. The encoder writes
the base type that the decoder maps back onto the same kind of value.
-/

namespace Tiberius

open Reading Reader Program Writing Writer

section Frame

variable {env : Context}

theorem checkPropBytes_reads {got want : ℕ} (hgot : got = want) :
    (checkPropBytes got want).Reads env [] () := by
  rw [checkPropBytes, if_neg (not_not_intro hgot)]
  exact ret_reads ()

theorem checkDataLen_reads {got want : ℕ} (hgot : got = want) :
    (checkDataLen got want).Reads env [] () := by
  rw [checkDataLen, if_neg (not_not_intro hgot)]
  exact ret_reads ()

/-- No byte stands for a type with a length and for one without. -/
theorem VarLenType.not_fixed (var : VarLenType) : FixedLenType.tryFrom var.toByte = none := by
  cases var <;> rfl

theorem encodeSqlVariant_of_body {data : ColumnData} {body : Writer Unit} {bytes : List UInt8}
    (hdata : variantBody data = some body) (hbody : body = .done bytes ()) :
    encodeSqlVariant data = .done (toLe 4 (UInt32.ofNat bytes.length).toNat ++ bytes) () := by
  rw [encodeSqlVariant, hdata, hbody]
  rfl

variable [EncodingRs]

/-- The decoder of a variant behind its total length and the two bytes after it. -/
def decodeVariantValue (base : UInt8) (propBytes dataLen : ℕ) : Reader ColumnData :=
  match FixedLenType.tryFrom base with
  | some fixed =>
    if propBytes ≠ 0 then
      Reader.protocol ("sql_variant: fixed base type " ++ fixed.debug ++
        " must not carry property bytes")
    else decodeFixedLen fixed
  | none =>
    match VarLenType.tryFrom base with
    | none =>
      Reader.protocol ("sql_variant: unknown base type " ++ hexAlternate 4 base.toNat)
    | some var => decodeVariantVarLen propBytes dataLen var

/-- The total length leaves the width of the value. -/
theorem decodeSqlVariant_of_value {base prop : UInt8} {rest : List UInt8} {data : ColumnData}
    (hprop : prop.toNat ≤ rest.length) (hrest : rest.length - prop.toNat ≤ maxVariantPayload)
    (hvalue : (decodeVariantValue base prop.toNat (rest.length - prop.toNat)).Reads env rest data) :
    decodeSqlVariant.Reads env
      (toLe 4 (UInt32.ofNat (base :: prop :: rest).length).toNat ++ (base :: prop :: rest))
      data := by
  have hbound := prop.toNat_lt
  have htotal : (UInt32.ofNat (base :: prop :: rest).length).toNat = rest.length + 2 := by
    rw [UInt32.toNat_ofNat', List.length_cons, List.length_cons]
    unfold maxVariantPayload at hrest
    omega
  have hlen : rest.length + 2 - 2 - prop.toNat = rest.length - prop.toNat := by omega
  refine (readU32Le_reads.mpr rfl).bind ?_
  rw [htotal, if_neg (by omega), if_neg (by omega)]
  refine (readU8_put base).bind ((readU8_put prop).bind ?_)
  rw [if_neg (by omega), hlen, if_neg (by omega)]
  exact hvalue

theorem decodeSqlVariant_fixed {fixed : FixedLenType} {value : List UInt8} {data : ColumnData}
    (hlen : value.length ≤ maxVariantPayload)
    (hvalue : (decodeFixedLen fixed).Reads env value data) :
    decodeSqlVariant.Reads env
      (toLe 4 (UInt32.ofNat (fixed.toByte :: 0 :: value).length).toNat ++
        (fixed.toByte :: 0 :: value)) data := by
  apply @decodeSqlVariant_of_value env _ _ 0 _ _ (Nat.zero_le _) hlen
  rw [decodeVariantValue, FixedLenType.tryFrom_eq_some_iff.mpr rfl]
  exact hvalue

theorem decodeSqlVariant_var {var : VarLenType} {prop : UInt8} {props value : List UInt8}
    {data : ColumnData} (hprop : props.length = prop.toNat)
    (hlen : value.length ≤ maxVariantPayload)
    (hvalue : (decodeVariantVarLen prop.toNat value.length var).Reads env (props ++ value) data) :
    decodeSqlVariant.Reads env
      (toLe 4 (UInt32.ofNat (var.toByte :: prop :: (props ++ value)).length).toNat ++
        (var.toByte :: prop :: (props ++ value))) data := by
  have hrest : (props ++ value).length - prop.toNat = value.length := by
    rw [List.length_append]
    omega
  apply decodeSqlVariant_of_value
  · rw [List.length_append]
    omega
  · rw [hrest]
    exact hlen
  · rw [decodeVariantValue, var.not_fixed, VarLenType.tryFrom_eq_some_iff.mpr rfl, hrest]
    exact hvalue

/-- The value goes out in a variant, and what goes out is read as the value. -/
def VariantReads (env : Context) (data : ColumnData) : Prop :=
  ∃ bytes, encodeSqlVariant data = .done bytes () ∧ decodeSqlVariant.Reads env bytes data

theorem variantReads_fixed (fixed : FixedLenType) (value : List UInt8) {data : ColumnData}
    {body : Writer Unit} (hdata : variantBody data = some body)
    (hbody : body = .done (fixed.toByte :: 0 :: value) ())
    (hlen : value.length ≤ maxVariantPayload)
    (hvalue : (decodeFixedLen fixed).Reads env value data) : VariantReads env data :=
  ⟨_, encodeSqlVariant_of_body hdata hbody, decodeSqlVariant_fixed hlen hvalue⟩

theorem variantReads_var (var : VarLenType) (prop : UInt8) (props value : List UInt8)
    {data : ColumnData} {body : Writer Unit} (hdata : variantBody data = some body)
    (hbody : body = .done (var.toByte :: prop :: (props ++ value)) ())
    (hprop : props.length = prop.toNat) (hlen : value.length ≤ maxVariantPayload)
    (hvalue : (decodeVariantVarLen prop.toNat value.length var).Reads env (props ++ value) data) :
    VariantReads env data :=
  ⟨_, encodeSqlVariant_of_body hdata hbody, decodeSqlVariant_var hprop hlen hvalue⟩

end Frame

section Values

variable {env : Context}

/-- The number is sent as a sign and a magnitude behind the length of both. -/
theorem Numeric.encode_eq (num : Numeric) :
    ∃ width : ℕ, (width = 4 ∨ width = 8 ∨ width = 12 ∨ width = 16) ∧
      num.len = UInt8.ofNat (width + 1) ∧ num.value.natAbs < 256 ^ width ∧
        num.encode = .done (num.len :: num.signByte :: toLe width num.value.natAbs) () := by
  rcases num.len_cases with ⟨h, hlt⟩ | ⟨h, hlt⟩ | ⟨h, hlt⟩ | ⟨h, hlt⟩
  · refine ⟨4, by decide, h, hlt, ?_⟩
    rw [encode, h]
    rfl
  · refine ⟨8, by decide, h, hlt, ?_⟩
    rw [encode, h]
    rfl
  · refine ⟨12, by decide, h, hlt, ?_⟩
    rw [encode, h]
    rfl
  · refine ⟨16, by decide, h, hlt, ?_⟩
    rw [encode, h]
    rfl

/-- The magnitude of a variant fills what its sign leaves of the value. -/
theorem decodeVariantNumeric_reads {num : Numeric} (hvalue : num.value ≠ -2 ^ 127) {width : ℕ}
    (hwidth : width = 4 ∨ width = 8 ∨ width = 12 ∨ width = 16)
    (hlt : num.value.natAbs < 256 ^ width) :
    (decodeVariantNumeric (width + 1) num.scale).Reads env
      (num.signByte :: toLe width num.value.natAbs) (.numeric (some num)) := by
  obtain ⟨sign, hsign, hsigned⟩ := num.signOf_signByte
  have hlow := num.value_ge
  have hhigh := num.value_lt
  have hscale : ¬ num.scale > 38 := UInt8.not_lt.mpr num.scale_le
  have hlength := toLe_length width num.value.natAbs
  have hmagnitude : leNat (toLe width num.value.natAbs) = num.value.natAbs := by
    rw [leNat_toLe, Nat.mod_eq_of_lt hlt]
  have hbyte := @readU8_put env num.signByte
  have hread : (readBytesInto (width + 1 - 1) maxPrealloc).Reads env
      (toLe width num.value.natAbs) _ := (readBytesInto_reads (by decide)).mpr ⟨hlength, rfl⟩
  rw [decodeVariantNumeric, if_neg (Nat.succ_ne_zero width), if_neg hscale]
  refine hbyte.bind ?_
  rw [hsign]
  refine hread.bind_last ?_
  rw [hlength, if_pos hwidth, hmagnitude, if_neg (by omega), hsigned]
  exact (Numeric.ofExcept_reads num).bind_last (ret_reads _)

variable [EncodingRs]

theorem bit_variantReads (value : Bool) : VariantReads env (.bit (some value)) := by
  apply variantReads_fixed .bit (bitBytes value) rfl rfl
  · exact Nat.le_add_left 1 7999
  · cases value <;> rfl

theorem u8_variantReads (value : UInt8) : VariantReads env (.u8 (some value)) := by
  apply variantReads_fixed .int1 [value] rfl rfl
  · exact Nat.le_add_left 1 7999
  · exact (readU8_put value).bind_last rfl

theorem i16_variantReads (value : Int16) : VariantReads env (.i16 (some value)) := by
  apply variantReads_fixed .int2 (toLe 2 value.toUInt16.toNat) rfl rfl
  · exact Nat.le_add_left 2 7998
  · exact (readI16Le_reads.mpr rfl).bind_last rfl

theorem i32_variantReads (value : Int32) : VariantReads env (.i32 (some value)) := by
  apply variantReads_fixed .int4 (toLe 4 value.toUInt32.toNat) rfl rfl
  · exact Nat.le_add_left 4 7996
  · exact (readI32Le_reads.mpr rfl).bind_last rfl

theorem i64_variantReads (value : Int64) : VariantReads env (.i64 (some value)) := by
  apply variantReads_fixed .int8 (toLe 8 value.toUInt64.toNat) rfl rfl
  · exact Nat.le_add_left 8 7992
  · exact (readI64Le_reads.mpr rfl).bind_last rfl

theorem f32_variantReads (bits : UInt32) : VariantReads env (.f32 (some bits)) := by
  apply variantReads_fixed .float4 (toLe 4 bits.toNat) rfl rfl
  · exact Nat.le_add_left 4 7996
  · exact (readU32Le_reads.mpr rfl).bind_last rfl

theorem f64_variantReads (bits : UInt64) : VariantReads env (.f64 (some bits)) := by
  apply variantReads_fixed .float8 (toLe 8 bits.toNat) rfl rfl
  · exact Nat.le_add_left 8 7992
  · exact (readU64Le_reads.mpr rfl).bind_last rfl

theorem dateTime_variantReads (dt : DateTime) : VariantReads env (.dateTime (some dt)) := by
  obtain ⟨bytes, hlength, hencode, hreads⟩ := @DateTime.decode_reads env dt
  apply variantReads_fixed .datetime bytes rfl
  · exact Written.headed_done [FixedLenType.datetime.toByte, 0] hencode
  · rw [hlength]
    exact Nat.le_add_left 8 7992
  · exact hreads.bind_last rfl

theorem smallDateTime_variantReads (dt : SmallDateTime) :
    VariantReads env (.smallDateTime (some dt)) := by
  obtain ⟨bytes, hlength, hencode, hreads⟩ := @SmallDateTime.decode_reads env dt
  apply variantReads_fixed .datetime4 bytes rfl
  · exact Written.headed_done [FixedLenType.datetime4.toByte, 0] hencode
  · rw [hlength]
    exact Nat.le_add_left 4 7996
  · exact hreads.bind_last rfl

theorem guid_variantReads {bytes : List UInt8} (hbytes : bytes.length = 16) :
    VariantReads env (.guid (some bytes)) := by
  have hlength : (reorderBytes bytes).length = 16 := (reorderBytes_length bytes).trans hbytes
  have hread : (readBytesInto 16 maxPrealloc).Reads env (reorderBytes bytes) _ :=
    (readBytesInto_reads (by decide)).mpr ⟨hlength, rfl⟩
  apply variantReads_var .guid 0 [] (reorderBytes bytes) rfl rfl rfl
  · rw [hlength]
    exact Nat.le_add_left 16 7984
  · rw [hlength]
    refine (checkPropBytes_reads rfl).bind ((checkDataLen_reads rfl).bind (hread.bind_last ?_))
    rw [reorderBytes_reorderBytes]
    exact ret_reads _

theorem numeric_variantReads {num : Numeric} (hvalue : num.value ≠ -2 ^ 127) :
    VariantReads env (.numeric (some num)) := by
  obtain ⟨width, hwidth, -, hlt, hencode⟩ := num.encode_eq
  apply variantReads_var .numericn 2 [UInt8.ofNat num.precision, num.scale]
    (num.signByte :: toLe width num.value.natAbs) rfl
  · rw [hencode]
    rfl
  · rfl
  · rw [List.length_cons, toLe_length, maxVariantPayload]
    omega
  · rw [List.length_cons, toLe_length]
    refine (checkPropBytes_reads rfl).bind ?_
    refine (readU8_put _).bind ((readU8_put num.scale).bind ?_)
    exact decodeVariantNumeric_reads hvalue hwidth hlt

theorem string_variantReads {text : String}
    (htext : (putUnits (encodeUtf16 text.toList)).length ≤ maxVariantPayload) :
    VariantReads env (.string (some text)) := by
  have heven : ¬ (putUnits (encodeUtf16 text.toList)).length % 2 ≠ 0 := by
    rw [putUnits_length]
    omega
  have hstrict : fromUtf16 (encodeUtf16 text.toList) = some text := fromUtf16_eq_some_iff.mpr rfl
  have hread : (readBytesInto (putUnits (encodeUtf16 text.toList)).length maxPrealloc).Reads env
      (putUnits (encodeUtf16 text.toList)) _ := (readBytesInto_reads (by decide)).mpr ⟨rfl, rfl⟩
  apply variantReads_var .nvarchar 7 (List.replicate 5 0 ++ toLe 2 maxVariantPayload)
    (putUnits (encodeUtf16 text.toList)) rfl
  · rw [if_neg (Nat.not_lt.mpr htext)]
    rfl
  · rfl
  · exact htext
  · rw [List.append_assoc]
    refine (checkPropBytes_reads rfl).bind ?_
    have hcollation : readCollation.Reads env (List.replicate 5 0) { info := 0, sortId := 0 } := rfl
    have hmax : readU16Le.Reads env (toLe 2 maxVariantPayload) 8000 := readU16Le_reads.mpr rfl
    refine hcollation.bind (hmax.bind (hread.bind_last ?_))
    rw [if_neg heven, unitsLe_putUnits, hstrict]
    exact ret_reads _

theorem binary_variantReads {bytes : List UInt8} (hbytes : bytes.length ≤ maxVariantPayload) :
    VariantReads env (.binary (some bytes)) := by
  have hread : (readBytesInto bytes.length maxPrealloc).Reads env bytes _ :=
    (readBytesInto_reads (by decide)).mpr ⟨rfl, rfl⟩
  have hmax : readU16Le.Reads env (toLe 2 maxVariantPayload) 8000 := readU16Le_reads.mpr rfl
  apply variantReads_var .bigVarBin 2 (toLe 2 maxVariantPayload) bytes rfl
  · rw [if_neg (Nat.not_lt.mpr hbytes)]
    rfl
  · rfl
  · exact hbytes
  · exact (checkPropBytes_reads rfl).bind (hmax.bind (hread.bind_last (ret_reads _)))

theorem date_variantReads {date : Date} (hdate : date.days.toNat < 2 ^ 24) :
    VariantReads env (.date (some date)) := by
  obtain ⟨hencode, hreads⟩ := @Date.decode_reads env date hdate
  apply variantReads_var .daten 0 [] (toLe 3 date.days.toNat) rfl
  · exact Written.headed_done [VarLenType.daten.toByte, 0] hencode
  · rfl
  · exact Nat.le_add_left 3 7997
  · exact (checkPropBytes_reads rfl).bind
      ((checkDataLen_reads rfl).bind (hreads.bind_last (ret_reads _)))

theorem time_variantReads {time : Time} (htime : time.Fits) :
    VariantReads env (.time (some time)) := by
  obtain ⟨width, hlow, hhigh, hlen, hencode, hreads⟩ := @Time.decode_reads env time htime
  apply variantReads_var .timen 1 [time.scale] (toLe width.toNat time.increments.toNat) rfl
  · exact Written.headed_done [VarLenType.timen.toByte, 1, time.scale] hencode
  · rfl
  · rw [toLe_length]
    exact Nat.le_trans (UInt8.le_iff_toNat_le.mp hhigh) (Nat.le_add_left 5 7995)
  · rw [toLe_length]
    exact (checkPropBytes_reads rfl).bind
      ((readU8_put time.scale).bind (hreads.bind_last (ret_reads _)))

theorem dateTime2_variantReads {dt : DateTime2} (htime : dt.time.Fits)
    (hdate : dt.date.days.toNat < 2 ^ 24) : VariantReads env (.dateTime2 (some dt)) := by
  obtain ⟨width, hlow, hhigh, hlen, hencode, hreads⟩ := @DateTime2.decode_reads env dt htime hdate
  apply variantReads_var .datetime2 1 [dt.time.scale] (dt.bytes width.toNat) rfl
  · exact Written.headed_done [VarLenType.datetime2.toByte, 1, dt.time.scale] hencode
  · rfl
  · have hfive : width.toNat ≤ 5 := UInt8.le_iff_toNat_le.mp hhigh
    rw [dt.bytes_length, maxVariantPayload]
    omega
  · rw [dt.bytes_length]
    refine (checkPropBytes_reads rfl).bind ((readU8_put dt.time.scale).bind ?_)
    rw [if_neg (by omega), Nat.add_sub_cancel]
    exact hreads.bind_last (ret_reads _)

theorem dateTimeOffset_variantReads {dto : DateTimeOffset} (htime : dto.datetime2.time.Fits)
    (hdate : dto.datetime2.date.days.toNat < 2 ^ 24) :
    VariantReads env (.dateTimeOffset (some dto)) := by
  obtain ⟨width, hlow, hhigh, hlen, hencode, hreads⟩ :=
    @DateTimeOffset.decode_reads env dto htime hdate
  have hfive : width.toNat ≤ 5 := UInt8.le_iff_toNat_le.mp hhigh
  apply variantReads_var .datetimeOffsetn 1 [dto.datetime2.time.scale] (dto.bytes width.toNat) rfl
  · exact Written.headed_done [VarLenType.datetimeOffsetn.toByte, 1, dto.datetime2.time.scale]
      hencode
  · rfl
  · rw [dto.bytes_length, maxVariantPayload]
    omega
  · rw [dto.bytes_length]
    refine (checkPropBytes_reads rfl).bind ((readU8_put dto.datetime2.time.scale).bind ?_)
    rw [if_neg (by omega), if_neg (by omega), Nat.add_sub_cancel]
    exact hreads.bind_last (ret_reads _)

end Values

/-- The values that have a base type of a variant, and NULL. A `guid` has 16 bytes,
as its type in the driver has it. -/
def ColumnData.FitsVariant : ColumnData → Prop
  | xml (some _) => False
  | numeric (some num) => num.value ≠ -2 ^ 127
  | time (some value) => value.Fits
  | date (some value) => value.days.toNat < 2 ^ 24
  | dateTime2 (some value) => value.time.Fits ∧ value.date.days.toNat < 2 ^ 24
  | dateTimeOffset (some value) =>
    value.datetime2.time.Fits ∧ value.datetime2.date.days.toNat < 2 ^ 24
  | string (some text) => (putUnits (encodeUtf16 text.toList)).length ≤ maxVariantPayload
  | binary (some bytes) => bytes.length ≤ maxVariantPayload
  | guid (some bytes) => bytes.length = 16
  | _ => True

section Variants

variable [EncodingRs]

/-- What a value becomes in a variant: a NULL of any type is read as that of a string. -/
def ReadsAsVariant (env : Context) (data : ColumnData) : Prop :=
  ∃ bytes back, encodeSqlVariant data = .done bytes () ∧
    decodeSqlVariant.run env bytes = .done back [] ∧
      (data.IsNull ∧ back = .string none ∨ ¬ data.IsNull ∧ back = data)

theorem VariantReads.value {env : Context} {data : ColumnData} (hreads : VariantReads env data)
    (hnull : ¬ data.IsNull) : ReadsAsVariant env data := by
  obtain ⟨bytes, hencode, hrun⟩ := hreads
  exact ⟨bytes, data, hencode, hrun, .inr ⟨hnull, rfl⟩⟩

theorem readsAsVariant_null (env : Context) {data : ColumnData} (hnull : data.IsNull) :
    ReadsAsVariant env data := by
  have hencode : encodeSqlVariant data = putU32Le 0 := by
    cases data <;> obtain rfl := hnull <;> rfl
  exact ⟨toLe 4 0, .string none, hencode, rfl, .inl ⟨hnull, rfl⟩⟩

/-- Every value that fits a variant goes out, and comes back to its last byte. -/
theorem variants_read_back (env : Context) (data : ColumnData) (hdata : data.FitsVariant) :
    ReadsAsVariant env data := by
  by_cases hnull : data.IsNull
  · exact readsAsVariant_null env hnull
  refine VariantReads.value ?_ hnull
  cases data with
  | u8 value =>
    cases value with
    | none => exact absurd rfl hnull
    | some value => exact u8_variantReads value
  | i16 value =>
    cases value with
    | none => exact absurd rfl hnull
    | some value => exact i16_variantReads value
  | i32 value =>
    cases value with
    | none => exact absurd rfl hnull
    | some value => exact i32_variantReads value
  | i64 value =>
    cases value with
    | none => exact absurd rfl hnull
    | some value => exact i64_variantReads value
  | f32 bits =>
    cases bits with
    | none => exact absurd rfl hnull
    | some bits => exact f32_variantReads bits
  | f64 bits =>
    cases bits with
    | none => exact absurd rfl hnull
    | some bits => exact f64_variantReads bits
  | bit value =>
    cases value with
    | none => exact absurd rfl hnull
    | some value => exact bit_variantReads value
  | string value =>
    cases value with
    | none => exact absurd rfl hnull
    | some text => exact string_variantReads hdata
  | guid bytes =>
    cases bytes with
    | none => exact absurd rfl hnull
    | some bytes => exact guid_variantReads hdata
  | binary bytes =>
    cases bytes with
    | none => exact absurd rfl hnull
    | some bytes => exact binary_variantReads hdata
  | numeric value =>
    cases value with
    | none => exact absurd rfl hnull
    | some num => exact numeric_variantReads hdata
  | xml value =>
    cases value with
    | none => exact absurd rfl hnull
    | some value => exact hdata.elim
  | dateTime value =>
    cases value with
    | none => exact absurd rfl hnull
    | some dt => exact dateTime_variantReads dt
  | smallDateTime value =>
    cases value with
    | none => exact absurd rfl hnull
    | some dt => exact smallDateTime_variantReads dt
  | time value =>
    cases value with
    | none => exact absurd rfl hnull
    | some time => exact time_variantReads hdata
  | date value =>
    cases value with
    | none => exact absurd rfl hnull
    | some date => exact date_variantReads hdata
  | dateTime2 value =>
    cases value with
    | none => exact absurd rfl hnull
    | some dt => exact dateTime2_variantReads hdata.1 hdata.2
  | dateTimeOffset value =>
    cases value with
    | none => exact absurd rfl hnull
    | some dto => exact dateTimeOffset_variantReads hdata.1 hdata.2

end Variants

theorem variants_read_back_largest :
    @ReadsAsVariant .ascii .new
      (.numeric (some ⟨2 ^ 127 - 1, 38, by decide, by decide, by decide⟩)) :=
  @variants_read_back .ascii .new _ (show (2 : ℤ) ^ 127 - 1 ≠ -2 ^ 127 by decide)

end Tiberius
