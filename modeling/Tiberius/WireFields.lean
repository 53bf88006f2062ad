import Tiberius.TokenLengths
import Tiberius.Variants

/-!
What the decoders leave of the fields of a temporal value. A time is read with the
width of its scale and a date from three bytes, in a column of its own type as in a
`sql_variant`.
-/

namespace Tiberius

open Reading Reading.Program Reader

/-- The bounds within which the decoders leave the fields of a value. -/
def ColumnData.InFields : ColumnData → Prop
  | .time (some value) => value.Fits
  | .date (some value) => value.days.toNat < 2 ^ 24
  | .dateTime2 (some value) => value.time.Fits ∧ value.date.days.toNat < 2 ^ 24
  | .dateTimeOffset (some value) =>
    value.datetime2.time.Fits ∧ value.datetime2.date.days.toNat < 2 ^ 24
  | _ => True

/-- A decoder that leaves the fields of what it reads within their bounds. -/
abbrev KeepsFields (p : Reader ColumnData) : Prop :=
  p.Ends ColumnData.InFields fun _ => True

variable {α : Type}

/-- A decoder whose values are of one kind, whatever it has read. -/
theorem keepsFields_of {p : Reader α} {f : α → ColumnData} (hkind : ∀ value, (f value).InFields) :
    KeepsFields (p.bind fun value => .ret (f value)) :=
  (ends_true p).bind fun value _ => hkind value

theorem keepsFields_of_returned {p : Reader ColumnData}
    (hends : p.Ends ColumnData.InFields Returned) : KeepsFields p :=
  hends.imp (fun _ => id) fun _ _ => trivial

section Parts

/-- A check in front of a decoder. -/
theorem check_ends {P : α → Prop} {got want : ℕ} {message : String} {p : Unit → Reader α}
    (hnext : (p ()).Ends P Returned) :
    ((if got ≠ want then protocol message else pure ()).bind p).Ends P Returned := by
  split_ifs
  · exact ⟨_, rfl⟩
  · exact hnext

theorem readU8_safe : Safe readU8 := fun _ _ => trivial

theorem readU16Le_safe : Safe readU16Le := fun _ _ => trivial

theorem readBytesInto_safe (len : ℕ) : Safe (readBytesInto len maxPrealloc) :=
  (readBytesInto_ends (by decide) len).mono fun _ _ => trivial

theorem readCollation_safe : Safe readCollation := fun _ _ _ _ => trivial

/-- Three bytes are a number that the constructor takes. -/
theorem Date.decode_ends : Date.decode.Ends (fun date => date.days.toNat < 2 ^ 24) Returned := by
  refine Ends.bind (readExact_ends 3) fun taken hlength => ?_
  have hbytes := leNat_lt taken
  rw [hlength] at hbytes
  have hdays : (getU32Le taken).toNat < 2 ^ 24 := by
    rw [getU32Le, UInt32.toNat_ofNat']
    exact Nat.lt_of_le_of_lt (Nat.mod_le _ _) hbytes
  have hshift : getU32Le taken >>> 24 = 0 := by
    apply UInt32.toNat.inj
    rw [UInt32.toNat_shiftRight, Nat.shiftRight_eq_div_pow]
    exact Nat.div_eq_of_lt hdays
  rw [Date.new, if_pos hshift]
  exact hdays

/-- A low part with a byte above it. -/
theorem or_shiftLeft_byte_lt {low : UInt64} (high : UInt8) {shift : ℕ} (hshift : shift ≤ 56)
    (hlow : low.toNat < 2 ^ shift) :
    (low ||| high.toUInt64 <<< UInt64.ofNat shift).toNat < 2 ^ 8 * 2 ^ shift := by
  have hhigh := high.toNat_lt
  have hpos : 0 < 2 ^ shift := Nat.pow_pos (by decide)
  have hsum : high.toNat * 2 ^ shift + low.toNat < 2 ^ 8 * 2 ^ shift :=
    calc high.toNat * 2 ^ shift + low.toNat < high.toNat * 2 ^ shift + 2 ^ shift := by omega
      _ = (high.toNat + 1) * 2 ^ shift := (Nat.succ_mul _ _).symm
      _ ≤ 2 ^ 8 * 2 ^ shift := Nat.mul_le_mul_right _ hhigh
  have hbound : 2 ^ 8 * 2 ^ shift ≤ 2 ^ 8 * 2 ^ 56 :=
    Nat.mul_le_mul_left _ (Nat.pow_le_pow_right (by decide) hshift)
  have hvalue : (low ||| high.toUInt64 <<< UInt64.ofNat shift).toNat =
      high.toNat * 2 ^ shift + low.toNat := by
    refine or_shiftLeft shift (by omega) ?_ ?_ (Nat.lt_of_lt_of_le hsum hbound)
    · rw [Nat.mul_add_mod', Nat.mod_eq_of_lt hlow]
    · rw [UInt8.toNat_toUInt64, Nat.add_comm, Nat.add_mul_div_right _ _ hpos,
        Nat.div_eq_of_lt hlow, Nat.zero_add]
  rw [hvalue]
  exact hsum

/-- The width that a time is read with is that of its scale. -/
theorem Time.decode_ends (scale width : ℕ) :
    (Time.decode scale width).Ends Time.Fits Returned := by
  have hscale : scale ≤ 7 → (UInt8.ofNat scale).toNat = scale := by
    intro hle
    rw [UInt8.toNat_ofNat']
    omega
  unfold Time.decode
  split_ifs with hthree hfour hfive
  · intro first _ second _
    refine .inl ⟨?_, or_shiftLeft_byte_lt _ (by decide) (getU16Le first).toNat_lt⟩
    rw [UInt8.le_iff_toNat_le, hscale (by omega)]
    exact hthree.1
  · intro taken _
    refine .inr (.inl ⟨⟨?_, ?_⟩, (getU32Le taken).toNat_lt⟩)
    · rw [UInt8.le_iff_toNat_le, hscale (by omega)]
      exact hfour.1
    · rw [UInt8.le_iff_toNat_le, hscale (by omega)]
      exact hfour.2.1
  · intro first _ second _
    refine .inr (.inr ⟨⟨?_, ?_⟩, or_shiftLeft_byte_lt _ (by decide) (getU32Le first).toNat_lt⟩)
    · rw [UInt8.le_iff_toNat_le, hscale (by omega)]
      exact hfive.1
    · rw [UInt8.le_iff_toNat_le, hscale (by omega)]
      exact hfive.2.1
  · exact ⟨_, rfl⟩

theorem DateTime2.decode_ends (scale width : ℕ) :
    (DateTime2.decode scale width).Ends
      (fun dt => dt.time.Fits ∧ dt.date.days.toNat < 2 ^ 24) Returned :=
  (Time.decode_ends scale width).bind fun _ htime => Date.decode_ends.bind fun _ hdate =>
    ⟨htime, hdate⟩

theorem DateTimeOffset.decode_ends (scale width : ℕ) :
    (DateTimeOffset.decode scale width).Ends
      (fun dto => dto.datetime2.time.Fits ∧ dto.datetime2.date.days.toNat < 2 ^ 24) Returned :=
  (DateTime2.decode_ends scale width).bind fun _ hdt =>
    Ends.bind (show Safe readI16Le from fun _ _ => trivial) fun _ _ => hdt

end Parts

theorem decodeFixedLen_ends (fixed : FixedLenType) :
    (decodeFixedLen fixed).Ends ColumnData.InFields Returned := by
  cases fixed with
  | null => trivial
  | datetime => exact fun _ _ _ _ => trivial
  | datetime4 => exact fun _ _ _ _ => trivial
  | money => exact fun _ _ _ _ => trivial
  | int1 | bit | int2 | int4 | float4 | float8 | money4 | int8 => exact fun _ _ => trivial

/-- The scale and the magnitude have been checked for the constructor. -/
theorem decodeVariantNumeric_ends (dataLen : ℕ) (scale : UInt8) :
    (decodeVariantNumeric dataLen scale).Ends ColumnData.InFields Returned := by
  unfold decodeVariantNumeric
  split_ifs with hempty hscale
  · exact ⟨_, rfl⟩
  · exact ⟨_, rfl⟩
  · refine Ends.bind readU8_safe fun byte _ => ?_
    cases hsign : Numeric.signOf byte with
    | none => exact ⟨_, rfl⟩
    | some sign =>
      refine Ends.bind (readBytesInto_safe _) fun magnitude _ => ?_
      split_ifs with hwidth hlarge
      · exact ⟨_, rfl⟩
      · have hunit : sign = -1 ∨ sign = 1 := by
          unfold Numeric.signOf at hsign
          split_ifs at hsign <;> simp_all
        have hvalue : (-2 ^ 127 ≤ leNat magnitude * sign ∧ leNat magnitude * sign < 2 ^ 127) ∧
            scale ≤ 38 := by
          refine ⟨?_, UInt8.not_lt.mp hscale⟩
          rcases hunit with rfl | rfl <;> omega
        rw [Numeric.newWithScale, dif_pos hvalue]
        trivial
      · exact ⟨_, rfl⟩

section Text

variable [EncodingRs]

theorem decodeCodepage_safe (collation : Collation) (bytes : List UInt8) (invalid : String) :
    Safe (decodeCodepage collation bytes invalid) := by
  refine (ofResult_safe _).bind fun codec => ?_
  refine Safe.bind (fun _ => trivial) fun lossy => ?_
  split_ifs
  · trivial
  · cases codec.decode bytes with
    | none => exact reject_safe _
    | some text => trivial

theorem decodeVariantVarLen_ends (propBytes dataLen : ℕ) (ty : VarLenType) :
    (decodeVariantVarLen propBytes dataLen ty).Ends ColumnData.InFields Returned := by
  cases ty with
  | guid =>
    apply check_ends
    apply check_ends
    exact Ends.bind (readBytesInto_safe 16) fun _ _ => trivial
  | decimaln | numericn =>
    apply check_ends
    refine Ends.bind readU8_safe fun precision _ => ?_
    refine Ends.bind readU8_safe fun scale _ => ?_
    exact decodeVariantNumeric_ends dataLen scale
  | bigChar | bigVarChar =>
    apply check_ends
    refine Ends.bind readCollation_safe fun collation _ => ?_
    refine Ends.bind readU16Le_safe fun maxLen _ => ?_
    refine Ends.bind (readBytesInto_safe dataLen) fun bytes _ => ?_
    exact Ends.bind (decodeCodepage_safe _ _ _) fun _ _ => trivial
  | nchar | nvarchar =>
    apply check_ends
    refine Ends.bind readCollation_safe fun collation _ => ?_
    refine Ends.bind readU16Le_safe fun maxLen _ => ?_
    refine Ends.bind (readBytesInto_safe dataLen) fun bytes _ => ?_
    split_ifs
    · exact ⟨_, rfl⟩
    · cases fromUtf16 (unitsLe bytes) with
      | none => exact ⟨_, rfl⟩
      | some text => trivial
  | bigBinary | bigVarBin =>
    apply check_ends
    refine Ends.bind readU16Le_safe fun maxLen _ => ?_
    exact Ends.bind (readBytesInto_safe dataLen) fun _ _ => trivial
  | daten =>
    apply check_ends
    apply check_ends
    exact Date.decode_ends.bind fun _ hdate => hdate
  | timen =>
    apply check_ends
    refine Ends.bind readU8_safe fun scale _ => ?_
    exact (Time.decode_ends _ _).bind fun _ htime => htime
  | datetime2 =>
    apply check_ends
    refine Ends.bind readU8_safe fun scale _ => ?_
    split_ifs
    · exact ⟨_, rfl⟩
    · exact (DateTime2.decode_ends _ _).bind fun _ hdt => hdt
  | datetimeOffsetn =>
    apply check_ends
    refine Ends.bind readU8_safe fun scale _ => ?_
    split_ifs
    · exact ⟨_, rfl⟩
    · exact ⟨_, rfl⟩
    · exact (DateTimeOffset.decode_ends _ _).bind fun _ hdto => hdto
  | intn | bitn | floatn | money | datetimen | xml | udt | text | image | ntext | ssVariant =>
    exact ⟨_, rfl⟩

/-- The decoder with the value under its own name. -/
theorem decodeSqlVariant_eq :
    decodeSqlVariant = readU32Le.bind fun total =>
      if total.toNat = 0 then ret (.string none)
      else if total.toNat < 2 then
        protocol ("sql_variant: invalid total length " ++ toString total.toNat)
      else readU8.bind fun base => readU8.bind fun prop =>
        if total.toNat < 2 + prop.toNat then
          protocol ("sql_variant: total length " ++ toString total.toNat ++ " too small for " ++
            toString prop.toNat ++ " property bytes")
        else if total.toNat - 2 - prop.toNat > maxVariantPayload then
          protocol ("sql_variant: value length " ++ toString (total.toNat - 2 - prop.toNat) ++
            " exceeds the maximum")
        else decodeVariantValue base prop.toNat (total.toNat - 2 - prop.toNat) := rfl

/-- Whatever its bytes declare, a `sql_variant` ends in a value within its bounds or in
an error that is returned. -/
theorem decodeSqlVariant_ends : decodeSqlVariant.Ends ColumnData.InFields Returned := by
  rw [decodeSqlVariant_eq]
  refine Ends.bind (show Safe readU32Le from fun _ _ => trivial) fun total _ => ?_
  split_ifs
  · trivial
  · exact ⟨_, rfl⟩
  · refine Ends.bind readU8_safe fun base _ => ?_
    refine Ends.bind readU8_safe fun prop _ => ?_
    split_ifs
    · exact ⟨_, rfl⟩
    · exact ⟨_, rfl⟩
    · unfold decodeVariantValue
      cases FixedLenType.tryFrom base with
      | some fixed =>
        dsimp only
        split_ifs
        · exact ⟨_, rfl⟩
        · exact decodeFixedLen_ends fixed
      | none =>
        cases VarLenType.tryFrom base with
        | none => exact ⟨_, rfl⟩
        | some ty => exact decodeVariantVarLen_ends _ _ ty

theorem decodeText_keeps (collation : Option Collation) : KeepsFields (decodeText collation) := by
  refine (ends_true _).bind fun ptrLen _ => ?_
  split_ifs
  · trivial
  · refine (ends_true _).bind fun _ _ => ?_
    cases collation with
    | some collation =>
      refine (ends_true _).bind fun codec _ => (ends_true _).bind fun textLen _ => ?_
      refine (ends_true _).bind fun bytes _ => (ends_true _).bind fun lossy _ => ?_
      split_ifs
      · trivial
      · cases codec.decode bytes with
        | none => trivial
        | some text => trivial
    | none =>
      refine (ends_true _).bind fun byteLen _ => ?_
      split_ifs
      · trivial
      · refine (ends_true _).bind fun raw _ => (ends_true _).bind fun lossy _ => ?_
        split_ifs
        · trivial
        · cases fromUtf16 (unitsLe raw) with
          | none => trivial
          | some text => trivial

theorem decodeVarLen_keeps (ctx : VarLenContext) : KeepsFields (decodeVarLen ctx) := by
  obtain ⟨ty, len, collation⟩ := ctx
  cases ty with
  | bitn | guid =>
    refine (ends_true _).bind fun len _ => ?_
    split
    · trivial
    · exact keepsFields_of fun _ => trivial
    · trivial
  | intn | floatn =>
    refine (ends_true _).bind fun len _ => ?_
    split <;> first | trivial | exact keepsFields_of fun _ => trivial
  | bigChar | bigVarChar | nchar | nvarchar | bigBinary | bigVarBin =>
    exact keepsFields_of fun _ => trivial
  | money =>
    refine (ends_true _).bind fun len _ => ?_
    unfold decodeMoney
    split
    · trivial
    · exact keepsFields_of fun _ => trivial
    · exact (ends_true _).bind fun _ _ => keepsFields_of fun _ => trivial
    · trivial
  | datetimen =>
    refine (ends_true _).bind fun rlen _ => ?_
    unfold decodeDatetimen
    split <;> first | trivial | exact keepsFields_of fun _ => trivial
  | daten =>
    refine (ends_true _).bind fun len _ => ?_
    split
    · trivial
    · exact keepsFields_of_returned (Date.decode_ends.bind fun _ hdate => hdate)
    · trivial
  | timen =>
    refine (ends_true _).bind fun rlen _ => ?_
    split_ifs
    · trivial
    · exact keepsFields_of_returned ((Time.decode_ends _ _).bind fun _ htime => htime)
    · trivial
  | datetime2 =>
    refine (ends_true _).bind fun rlen _ => ?_
    split_ifs
    · trivial
    · trivial
    · exact keepsFields_of_returned ((DateTime2.decode_ends _ _).bind fun _ hdt => hdt)
  | datetimeOffsetn =>
    refine (ends_true _).bind fun rlen _ => ?_
    split_ifs
    · trivial
    · trivial
    · exact keepsFields_of_returned ((DateTimeOffset.decode_ends _ _).bind fun _ hdto => hdto)
  | text => exact decodeText_keeps collation
  | ntext => exact decodeText_keeps none
  | image =>
    refine (ends_true _).bind fun ptrLen _ => ?_
    split_ifs
    · trivial
    · refine (ends_true _).bind fun _ _ => (ends_true _).bind fun len _ => ?_
      exact keepsFields_of fun _ => trivial
  | ssVariant => exact keepsFields_of_returned decodeSqlVariant_ends
  | decimaln | numericn | xml | udt => trivial

theorem decode_keeps (ty : TypeInfo) : KeepsFields (ColumnData.decode ty) := by
  cases ty with
  | fixedLen ty => exact keepsFields_of_returned (decodeFixedLen_ends ty)
  | varLenSized ctx => exact decodeVarLen_keeps ctx
  | varLenSizedPrecision ty size precision scale =>
    cases ty <;> first | trivial | exact keepsFields_of fun _ => trivial
  | xml schema size => exact keepsFields_of fun _ => trivial
  | udt info => exact keepsFields_of fun _ => trivial

/-- A value that some decoder reads from some bytes. -/
def ColumnData.FromWire (data : ColumnData) : Prop :=
  ∃ env ty bytes, (ColumnData.decode ty).Reads env bytes data

theorem ColumnData.FromWire.inFields {data : ColumnData} (hdata : data.FromWire) :
    data.InFields := by
  obtain ⟨env, ty, bytes, hreads⟩ := hdata
  exact (decode_keeps ty).of_done hreads

end Text

end Tiberius
