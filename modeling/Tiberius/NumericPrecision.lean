import Tiberius.ColumnWidths

/-!
What a number is declared as when it is sent as a parameter: in the text of the
parameter list by the name of its type, and in front of its value by the type
information. Both give the precision that is counted from the digits.
-/

namespace Tiberius

open Reading Reader Program Writing Writer

def maxNvarcharSize : ℕ := 2 ^ 30

/-- `ColumnData::type_name`, the declaration of a parameter. -/
def ColumnData.typeName : ColumnData → String
  | u8 _ => "tinyint"
  | i16 _ => "smallint"
  | i32 _ => "int"
  | i64 _ => "bigint"
  | f32 _ => "float(24)"
  | f64 _ => "float(53)"
  | bit _ => "bit"
  | string none => "nvarchar(4000)"
  | string (some text) =>
    if strLen text ≤ 4000 then "nvarchar(4000)"
    else if strLen text ≤ maxNvarcharSize then "nvarchar(max)"
    else "ntext(max)"
  | guid _ => "uniqueidentifier"
  | binary (some bytes) => if bytes.length ≤ 8000 then "varbinary(8000)" else "varbinary(max)"
  | binary none => "varbinary(max)"
  | numeric (some num) =>
    "numeric(" ++ toString num.precision ++ "," ++ toString num.scale ++ ")"
  | numeric none => "numeric"
  | xml _ => "xml"
  | dateTime _ => "datetime"
  | smallDateTime _ => "smalldatetime"
  | time _ => "time"
  | date _ => "date"
  | dateTime2 _ => "datetime2"
  | dateTimeOffset _ => "datetimeoffset"

namespace Numeric

def typeInfoBytes (num : Numeric) : List UInt8 :=
  [VarLenType.numericn.toByte, num.len, UInt8.ofNat num.precision, num.scale]

theorem precision_toNat (num : Numeric) : (UInt8.ofNat num.precision).toNat = num.precision := by
  have hmax := num.precision_le
  rw [UInt8.toNat_ofNat']
  omega

/-- A number is always written, behind its type information. -/
theorem encodeUntyped_eq (num : Numeric) :
    ∃ bytes, (ColumnData.numeric (some num)).encodeUntyped =
      .done (num.typeInfoBytes ++ bytes) () := by
  have hencode : ∃ bytes, num.encode = .done bytes () := by
    rcases num.len_cases with ⟨h, -⟩ | ⟨h, -⟩ | ⟨h, -⟩ | ⟨h, -⟩
    all_goals
      rw [encode, h]
      exact ⟨_, rfl⟩
  obtain ⟨bytes, hbytes⟩ := hencode
  exact ⟨bytes, Written.headed_done _ hbytes⟩

/-- The declaration of a number as a parameter is one that SQL Server has: there are
1 to 38 digits, enough for the scale and for the value, in the name of the type
and in the type information, which is accepted. -/
structure Declared (num : Numeric) : Prop where
  scale_le : max 1 num.scale.toNat ≤ num.precision
  precision_le : num.precision ≤ 38
  value_lt : num.value.natAbs < 10 ^ num.precision
  named : (ColumnData.numeric (some num)).typeName =
    "numeric(" ++ toString num.precision ++ "," ++ toString num.scale ++ ")"
  written : ∃ bytes, (ColumnData.numeric (some num)).encodeUntyped =
    .done (num.typeInfoBytes ++ bytes) ()
  accepted : ∀ env, TypeInfo.decode.Reads env num.typeInfoBytes
    (.varLenSizedPrecision .numericn num.len.toNat (UInt8.ofNat num.precision) num.scale)

/-- With all digits behind the point there is still one counted in front of it. -/
theorem scale_lt_precision (num : Numeric) : num.scale.toNat < num.precision :=
  (precision_le_iff.mp (Nat.le_refl num.precision)).1

/-- A number of at most 38 digits is declared with more than 38 just when they are
all behind the point. -/
theorem declared_iff {num : Numeric} (hvalue : num.value.natAbs < 10 ^ 38) :
    num.Declared ↔ num.scale < 38 := by
  constructor
  · intro hdeclared
    have hscale := num.scale_lt_precision
    have hprecision := hdeclared.precision_le
    rw [UInt8.lt_iff_toNat_lt]
    exact Nat.lt_of_lt_of_le hscale hprecision
  · intro hscale
    rw [UInt8.lt_iff_toNat_lt] at hscale
    have hprecision : num.precision ≤ 38 := precision_le_iff.mpr ⟨hscale, hvalue⟩
    refine ⟨?_, hprecision, num.natAbs_lt, rfl, num.encodeUntyped_eq, fun env => ?_⟩
    · apply Nat.max_le.mpr
      exact ⟨num.precision_pos, num.scale_le_precision⟩
    · apply decode_numericn
      · rw [UInt8.le_iff_toNat_le, num.precision_toNat]
        exact hprecision
      · rw [UInt8.le_iff_toNat_le, num.precision_toNat]
        exact num.scale_le_precision

theorem largest_power_declared :
    (Numeric.mk (10 ^ 37) 37 (by decide) (by decide) (by decide)).Declared :=
  (declared_iff (by decide)).mpr (by decide)

/-- One unit of a `decimal(38, 38)` is declared with 39 digits. -/
theorem smallest_fraction_refused :
    (1 : ℤ).natAbs < 10 ^ 38 ∧
      ¬ (Numeric.mk 1 38 (by decide) (by decide) (by decide)).Declared ∧
      (ColumnData.numeric (some ⟨1, 38, by decide, by decide, by decide⟩)).typeName =
        "numeric(39,38)" ∧
      ∀ env rest, TypeInfo.decode.run env
          ((Numeric.mk 1 38 (by decide) (by decide) (by decide)).typeInfoBytes ++ rest) =
        .failed (.error (.protocol "decimal/numeric: invalid precision 39 / scale 38")) rest := by
  refine ⟨by decide, ?_, by decide, fun env rest => ?_⟩
  · intro hdeclared
    have hprecision := hdeclared.precision_le
    revert hprecision
    decide
  · have htext : "decimal/numeric: invalid precision " ++ toString (39 : UInt8) ++ " / scale " ++
        toString (38 : UInt8) = "decimal/numeric: invalid precision 39 / scale 38" := by decide
    rw [← htext]
    rfl

end Numeric

end Tiberius
