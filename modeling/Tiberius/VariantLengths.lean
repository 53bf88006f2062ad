import Tiberius.WireFields

/-!
The total length of a `sql_variant` against what its decoder reads. Every base
type of variable length is pinned to the bytes that the total length leaves for
its value; a base type of fixed length is read by the decoder of fixed columns,
which goes by the type alone.
-/

namespace Tiberius

open Reading Reading.Program Reader

/-- The bytes of a value of the type. -/
def FixedLenType.width : FixedLenType → ℕ
  | null => 0
  | bit | int1 => 1
  | int2 => 2
  | int4 | float4 | money4 | datetime4 => 4
  | int8 | float8 | money | datetime => 8

/-- The run does not panic, and a value that it returns has used the four bytes of
the total length and as many as it says. -/
def VariantInPlace [EncodingRs] (env : Context) (bytes : List UInt8) : Prop :=
  (∀ rest, decodeSqlVariant.run env bytes ≠ .failed .panic rest) ∧
    ∀ value rest, decodeSqlVariant.run env bytes = .done value rest →
      ∃ used, bytes = used ++ rest ∧ used.length = 4 + leNat (bytes.take 4)

/-- A value of a fixed-length type under a total length of another size. -/
def VariantMisdeclared (bytes : List UInt8) : Prop :=
  ∃ (fixed : FixedLenType) (total : ℕ) (value rest : List UInt8),
    bytes = toLe 4 total ++ (fixed.toByte :: 0 :: (value ++ rest)) ∧
      value.length = fixed.width ∧ 2 ≤ total ∧ total ≤ 2 + maxVariantPayload ∧
        total ≠ 2 + fixed.width

section Fixed

variable {env : Context}

theorem readU8_takes : TakesBytes 1 readU8 := fun _ _ => rfl

theorem decodeFixedLen_takes (fixed : FixedLenType) :
    TakesBytes fixed.width (decodeFixedLen fixed) := by
  cases fixed with
  | null => exact rfl
  | datetime => exact fun _ _ _ _ => rfl
  | datetime4 => exact fun _ _ _ _ => rfl
  | money => exact fun _ _ _ _ => rfl
  | int1 | bit | int2 | int4 | float4 | float8 | money4 | int8 => exact fun _ _ => rfl

/-- Bytes of the right number are a value of the type. -/
theorem decodeFixedLen_reads (fixed : FixedLenType) {value : List UInt8}
    (hvalue : value.length = fixed.width) : ∃ data, (decodeFixedLen fixed).Reads env value data := by
  cases fixed with
  | null =>
    obtain rfl := List.length_eq_zero_iff.mp hvalue
    exact ⟨_, rfl⟩
  | int1 | bit =>
    match value, hvalue with
    | [_], _ => exact ⟨_, rfl⟩
  | int2 =>
    match value, hvalue with
    | [_, _], _ => exact ⟨_, rfl⟩
  | int4 | float4 | money4 | datetime4 =>
    match value, hvalue with
    | [_, _, _, _], _ => exact ⟨_, rfl⟩
  | int8 | float8 | money | datetime =>
    match value, hvalue with
    | [_, _, _, _, _, _, _, _], _ => exact ⟨_, rfl⟩

end Fixed

section Parts

variable {α : Type}

/-- A check in front of a decoder leaves what it has checked to be used. -/
theorem check_takes {got want total : ℕ} {message : String} {p : Unit → Reader α}
    (hnext : got = want → TakesBytes total (p ())) :
    TakesBytes total ((if got ≠ want then protocol message else pure ()).bind p) := by
  split_ifs with hgot
  · trivial
  · exact hnext (not_not.mp hgot)

theorem readBytesInto_takes (len : ℕ) : TakesBytes len (readBytesInto len maxPrealloc) :=
  readWindows_takes (by decide) len len (Nat.le_refl len)

theorem readCollation_takes : TakesBytes 5 readCollation := fun _ _ _ _ => rfl

theorem Date.decode_takes : TakesBytes 3 Date.decode := by
  change TakesBytes (3 + 0) _
  refine (readExact_takes 3).bind fun taken => ?_
  unfold Date.new
  split_ifs
  · exact rfl
  · trivial

theorem Time.decode_takes (scale width : ℕ) : TakesBytes width (Time.decode scale width) := by
  unfold Time.decode
  split_ifs with hthree hfour hfive
  · rw [hthree.2]
    exact fun _ _ _ _ => rfl
  · rw [hfour.2.2]
    exact fun _ _ => rfl
  · rw [hfive.2.2]
    exact fun _ _ _ _ => rfl
  · trivial

theorem DateTime2.decode_takes (scale width : ℕ) :
    TakesBytes (width + 3) (DateTime2.decode scale width) :=
  (Time.decode_takes scale width).bind fun _ => takes_map Date.decode_takes

theorem DateTimeOffset.decode_takes (scale width : ℕ) :
    TakesBytes (width + 3 + 2) (DateTimeOffset.decode scale width) :=
  (DateTime2.decode_takes scale width).bind fun _ =>
    takes_map (show TakesBytes 2 readI16Le from fun _ _ => rfl)

theorem decodeVariantNumeric_takes (dataLen : ℕ) (scale : UInt8) :
    TakesBytes dataLen (decodeVariantNumeric dataLen scale) := by
  unfold decodeVariantNumeric
  split_ifs with hempty hscale
  · trivial
  · trivial
  · have htotal : 1 + (dataLen - 1) = dataLen := by omega
    rw [← htotal]
    refine TakesBytes.bind readU8_takes fun byte => ?_
    cases Numeric.signOf byte with
    | none => trivial
    | some sign =>
      rw [htotal]
      change TakesBytes (dataLen - 1 + 0) _
      refine (readBytesInto_takes _).bind fun magnitude => ?_
      split_ifs
      · trivial
      · refine takes_map ?_
        cases Numeric.newWithScale (leNat magnitude * sign) scale with
        | ok value => exact rfl
        | error fault => trivial
      · trivial

theorem takesBytes_length {env : Context} {count : ℕ} {p : Reader α}
    {bytes : List UInt8} {value : α} (htakes : TakesBytes count p)
    (hreads : p.Reads env bytes value) : bytes.length = count := by
  obtain ⟨taken, rfl, hinside, hrest⟩ := htakes.of_run hreads
  have hdrop := List.drop_eq_nil_iff.mp hrest.symm
  omega

end Parts

section Decode

variable [EncodingRs]

theorem decodeCodepage_takes (collation : Collation) (bytes : List UInt8) (invalid : String) :
    TakesBytes 0 (decodeCodepage collation bytes invalid) := by
  change TakesBytes (0 + 0) _
  refine (ofResult_takes _).bind fun codec => ?_
  change TakesBytes (0 + 0) _
  refine TakesBytes.bind (fun _ => rfl) fun lossy => ?_
  split_ifs
  · exact rfl
  · cases codec.decode bytes with
    | none => trivial
    | some text => exact rfl

/-- A value of variable length is as long as the total length leaves it. -/
theorem decodeVariantVarLen_takes (propBytes dataLen : ℕ) (ty : VarLenType) :
    TakesBytes (propBytes + dataLen) (decodeVariantVarLen propBytes dataLen ty) := by
  cases ty with
  | guid =>
    apply check_takes
    rintro rfl
    apply check_takes
    rintro rfl
    exact takes_map (readBytesInto_takes 16)
  | decimaln | numericn =>
    apply check_takes
    rintro rfl
    rw [show 2 + dataLen = 1 + (1 + dataLen) by omega]
    refine readU8_takes.bind fun precision => ?_
    exact readU8_takes.bind fun scale => decodeVariantNumeric_takes dataLen scale
  | bigChar | bigVarChar =>
    apply check_takes
    rintro rfl
    rw [show 7 + dataLen = 5 + (2 + (dataLen + 0)) by omega]
    refine readCollation_takes.bind fun collation => ?_
    refine TakesBytes.bind (fun _ _ => rfl) fun maxLen => ?_
    exact (readBytesInto_takes dataLen).bind fun bytes => takes_map (decodeCodepage_takes _ _ _)
  | nchar | nvarchar =>
    apply check_takes
    rintro rfl
    rw [show 7 + dataLen = 5 + (2 + (dataLen + 0)) by omega]
    refine readCollation_takes.bind fun collation => ?_
    refine TakesBytes.bind (fun _ _ => rfl) fun maxLen => ?_
    refine (readBytesInto_takes dataLen).bind fun bytes => ?_
    split_ifs
    · trivial
    · cases fromUtf16 (unitsLe bytes) with
      | none => trivial
      | some text => exact rfl
  | bigBinary | bigVarBin =>
    apply check_takes
    rintro rfl
    refine TakesBytes.bind (fun _ _ => rfl) fun maxLen => ?_
    exact takes_map (readBytesInto_takes dataLen)
  | daten =>
    apply check_takes
    rintro rfl
    apply check_takes
    rintro rfl
    exact takes_map Date.decode_takes
  | timen =>
    apply check_takes
    rintro rfl
    exact readU8_takes.bind fun scale => takes_map (Time.decode_takes _ dataLen)
  | datetime2 =>
    apply check_takes
    rintro rfl
    refine readU8_takes.bind fun scale => ?_
    split_ifs with hshort
    · trivial
    · have htakes := DateTime2.decode_takes scale.toNat (dataLen - 3)
      rw [Nat.sub_add_cancel (Nat.le_of_not_lt hshort)] at htakes
      exact takes_map htakes
  | datetimeOffsetn =>
    apply check_takes
    rintro rfl
    refine readU8_takes.bind fun scale => ?_
    split_ifs with hshort hlong
    · trivial
    · trivial
    · have htakes := DateTimeOffset.decode_takes scale.toNat (dataLen - 5)
      rw [show dataLen - 5 + 3 + 2 = dataLen by omega] at htakes
      exact takes_map htakes
  | intn | bitn | floatn | money | datetimen | xml | udt | text | image | ntext | ssVariant => trivial

/-- What a value is read from: a NULL has its total length alone. -/
theorem decodeSqlVariant_form {env : Context} {bytes : List UInt8} {value : ColumnData}
    (hreads : decodeSqlVariant.Reads env bytes value) :
    ∃ total : UInt32, (total.toNat = 0 ∧ bytes = toLe 4 total.toNat) ∨
      ∃ base prop rest, bytes = toLe 4 total.toNat ++ base :: prop :: rest ∧
        2 + prop.toNat ≤ total.toNat ∧ total.toNat - 2 - prop.toNat ≤ maxVariantPayload ∧
          (decodeVariantValue base prop.toNat (total.toNat - 2 - prop.toNat)).Reads env rest
            value := by
  rw [decodeSqlVariant_eq, reads_bind] at hreads
  obtain ⟨first, body, total, rfl, hfirst, hbody⟩ := hreads
  obtain rfl := readU32Le_reads.mp hfirst
  refine ⟨total, ?_⟩
  split_ifs at hbody with hzero hlow
  · obtain ⟨rfl, -⟩ := reads_ret.mp hbody
    exact .inl ⟨hzero, List.append_nil _⟩
  · exact (reads_protocol.mp hbody).elim
  · rw [reads_bind] at hbody
    obtain ⟨second, more, base, rfl, hbase, hmore⟩ := hbody
    obtain rfl := readU8_reads.mp hbase
    rw [reads_bind] at hmore
    obtain ⟨third, rest, prop, rfl, hprop, hvalue⟩ := hmore
    obtain rfl := readU8_reads.mp hprop
    split_ifs at hvalue with hshort hlong
    · exact (reads_protocol.mp hvalue).elim
    · exact (reads_protocol.mp hvalue).elim
    · exact .inr ⟨base, prop, rest, rfl, Nat.le_of_not_lt hshort, Nat.le_of_not_lt hlong, hvalue⟩

/-- A value takes what its length leaves for it, or is of a type of fixed length and
takes what the type says. -/
theorem decodeVariantValue_length {env : Context} {base : UInt8} {propBytes dataLen : ℕ}
    {bytes : List UInt8} {value : ColumnData}
    (hreads : (decodeVariantValue base propBytes dataLen).Reads env bytes value) :
    bytes.length = propBytes + dataLen ∨
      ∃ fixed : FixedLenType, base = fixed.toByte ∧ propBytes = 0 ∧ bytes.length = fixed.width := by
  unfold decodeVariantValue at hreads
  cases hfixed : FixedLenType.tryFrom base with
  | some fixed =>
    rw [hfixed] at hreads
    dsimp only at hreads
    split_ifs at hreads with hprop
    · exact (reads_protocol.mp hreads).elim
    · refine .inr ⟨fixed, FixedLenType.tryFrom_eq_some_iff.mp hfixed, not_not.mp hprop, ?_⟩
      exact takesBytes_length (decodeFixedLen_takes fixed) hreads
  | none =>
    rw [hfixed] at hreads
    cases hvar : VarLenType.tryFrom base with
    | none =>
      rw [hvar] at hreads
      exact (reads_protocol.mp hreads).elim
    | some ty =>
      rw [hvar] at hreads
      exact .inl (takesBytes_length (decodeVariantVarLen_takes propBytes dataLen ty) hreads)

end Decode

theorem leNat_take_toLe {total : ℕ} (htotal : total < 2 ^ 32) (rest : List UInt8) :
    leNat ((toLe 4 total ++ rest).take 4) = total := by
  have hlength := toLe_length 4 total
  rw [List.take_append_of_le_length (by omega), List.take_of_length_le (by omega), leNat_toLe]
  exact Nat.mod_eq_of_lt htotal

/-- A value stays within its total length unless a type of fixed length stands under
a length of another size. -/
theorem variantInPlace_iff [EncodingRs] (env : Context) (bytes : List UInt8) :
    VariantInPlace env bytes ↔ ¬ VariantMisdeclared bytes := by
  constructor
  · rintro ⟨-, hused⟩ ⟨fixed, total, value, rest, rfl, hwidth, hlow, hhigh, hother⟩
    have htotal : total < 2 ^ 32 := by
      unfold maxVariantPayload at hhigh
      omega
    have hnat : (UInt32.ofNat total).toNat = total := by
      rw [UInt32.toNat_ofNat', Nat.mod_eq_of_lt htotal]
    obtain ⟨data, hdata⟩ := @decodeFixedLen_reads env fixed value hwidth
    have hreads : decodeSqlVariant.Reads env
        (toLe 4 total ++ ([fixed.toByte] ++ ([0] ++ value))) data := by
      rw [decodeSqlVariant_eq, ← hnat]
      refine (readU32Le_reads.mpr rfl).bind ?_
      rw [hnat, if_neg (by omega), if_neg (by omega)]
      refine (readU8_put _).bind ((readU8_put 0).bind ?_)
      have hzero : (0 : UInt8).toNat = 0 := rfl
      rw [hzero, if_neg (by omega), if_neg (by omega), decodeVariantValue,
        FixedLenType.tryFrom_eq_some_iff.mpr rfl]
      exact hdata
    have hrun := hreads.run_append rest
    simp only [List.append_assoc, List.cons_append, List.nil_append] at hrun
    obtain ⟨used, hbytes, hlength⟩ := hused data rest hrun
    have hsizes := congrArg List.length hbytes
    rw [leNat_take_toLe htotal] at hlength
    simp only [List.length_append, List.length_cons, toLe_length] at hsizes
    omega
  · intro hdeclared
    refine ⟨?_, ?_⟩
    · intro rest hpanic
      obtain ⟨error, herror⟩ := decodeSqlVariant_ends.of_failed hpanic
      cases herror
    · intro value rest hrun
      obtain ⟨used, rfl, hreads⟩ := reads_of_run hrun
      refine ⟨used, rfl, ?_⟩
      obtain ⟨total, ⟨hzero, rfl⟩ | ⟨base, prop, more, rfl, hprop, hlen, hvalue⟩⟩ :=
        decodeSqlVariant_form hreads
      · rw [leNat_take_toLe total.toNat_lt, toLe_length, hzero]
      · rw [List.append_assoc, leNat_take_toLe total.toNat_lt, List.length_append, toLe_length,
          List.length_cons, List.length_cons]
        rcases decodeVariantValue_length hvalue with hmore | ⟨fixed, rfl, hnone, hmore⟩
        · omega
        · by_contra hother
          have hzero : prop = 0 := UInt8.toNat.inj hnone
          refine hdeclared ⟨fixed, total.toNat, more, rest, ?_, hmore, ?_, ?_, ?_⟩
          · rw [hzero, List.append_assoc, List.cons_append, List.cons_append]
          · omega
          · omega
          · omega

/-- A tinyint under a total length of seven bytes: the four bytes behind it stay
where the next value is read. -/
theorem variant_misread_tinyint :
    (@decodeSqlVariant .ascii).run .new [7, 0, 0, 0, 0x30, 0, 5, 1, 2, 3, 4] =
        .done (.u8 (some 5)) [1, 2, 3, 4] ∧
      ¬ ∀ bytes, @VariantInPlace .ascii .new bytes := by
  refine ⟨rfl, ?_⟩
  intro hplace
  obtain ⟨used, hbytes, hlength⟩ :=
    (hplace [7, 0, 0, 0, 0x30, 0, 5, 1, 2, 3, 4]).2 (.u8 (some 5)) [1, 2, 3, 4] rfl
  have hsizes := congrArg List.length hbytes
  have htotal : leNat (List.take 4 [7, 0, 0, 0, 0x30, 0, 5, 1, 2, 3, 4]) = 7 := rfl
  rw [htotal] at hlength
  simp only [List.length_append, List.length_cons, List.length_nil] at hsizes
  omega

end Tiberius
