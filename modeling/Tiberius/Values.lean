import Mathlib.Data.Int.Notation
import Tiberius.Collation

/-!
The values of columns and the type information that describes them on the
wire. Floating point numbers are kept as their bit patterns; the one place
where a decoder computes with them, the scaling of money, is done by rounding
an exact quotient to the nearest pattern.
-/

namespace Tiberius

/-- The quotient of two numbers, rounded to nearest with ties to even. -/
def roundHalfEven (num den : ℕ) : ℕ :=
  let quotient := num / den
  let twice := 2 * (num % den)
  if twice < den then quotient
  else if den < twice then quotient + 1
  else quotient + quotient % 2

/-- The bit pattern of the binary64 number nearest to `num / den`. -/
def f64OfRatio (negative : Bool) (num den : ℕ) : UInt64 :=
  let sign : ℕ := if negative then 2 ^ 63 else 0
  if num = 0 then UInt64.ofNat sign
  else
    let scaled (exponent : ℤ) : ℕ × ℕ :=
      if 0 ≤ exponent then (num, den * 2 ^ exponent.toNat)
      else (num * 2 ^ (-exponent).toNat, den)
    let guess : ℤ := (Nat.log2 num : ℤ) - Nat.log2 den - 52
    let normal := if (scaled guess).1 < (scaled guess).2 * 2 ^ 52 then guess - 1 else guess
    let exponent := max normal (-1074)
    let mantissa := roundHalfEven (scaled exponent).1 (scaled exponent).2
    -- A mantissa rounded up to the next power of two carries into the exponent field.
    let magnitude := (exponent + 1074).toNat * 2 ^ 52 + mantissa
    UInt64.ofNat (sign + min magnitude (0x7ff * 2 ^ 52))

/-- An integer as a binary64 number, which is again an integer. -/
def roundToF64 (n : ℕ) : ℕ :=
  if n < 2 ^ 53 then n
  else
    let unit := 2 ^ (Nat.log2 n - 52)
    roundHalfEven n unit * unit

/-- A fixed-point number of at most 38 digits after the point. -/
structure Numeric where
  value : ℤ
  scale : UInt8
  value_ge : -2 ^ 127 ≤ value
  value_lt : value < 2 ^ 127
  scale_le : scale ≤ 38
  deriving DecidableEq, Repr

/-- `Numeric::new_with_scale` asserts its scale; its value is an `i128`. -/
def Numeric.newWithScale (value : ℤ) (scale : UInt8) : Except Fault Numeric :=
  if h : (-2 ^ 127 ≤ value ∧ value < 2 ^ 127) ∧ scale ≤ 38 then
    .ok ⟨value, scale, h.1.1, h.1.2, h.2⟩
  else .error .panic

structure DateTime where
  days : Int32
  secondsFragments : UInt32
  deriving DecidableEq, Repr

structure SmallDateTime where
  days : UInt16
  secondsFragments : UInt16
  deriving DecidableEq, Repr

structure Date where
  days : UInt32
  deriving DecidableEq, Repr

structure Time where
  increments : UInt64
  scale : UInt8
  deriving DecidableEq, Repr

structure DateTime2 where
  date : Date
  time : Time
  deriving DecidableEq, Repr

structure DateTimeOffset where
  datetime2 : DateTime2
  offset : Int16
  deriving DecidableEq, Repr

structure XmlSchema where
  dbName : String
  owner : String
  collection : String
  deriving DecidableEq, Repr

structure XmlData where
  data : String
  schema : Option XmlSchema
  deriving DecidableEq, Repr

/-- A value of a column, `none` for SQL's NULL. -/
inductive ColumnData where
  | u8 (value : Option UInt8)
  | i16 (value : Option Int16)
  | i32 (value : Option Int32)
  | i64 (value : Option Int64)
  | f32 (bits : Option UInt32)
  | f64 (bits : Option UInt64)
  | bit (value : Option Bool)
  | string (value : Option String)
  | guid (bytes : Option (List UInt8))
  | binary (bytes : Option (List UInt8))
  | numeric (value : Option Numeric)
  | xml (value : Option XmlData)
  | dateTime (value : Option DateTime)
  | smallDateTime (value : Option SmallDateTime)
  | time (value : Option Time)
  | date (value : Option Date)
  | dateTime2 (value : Option DateTime2)
  | dateTimeOffset (value : Option DateTimeOffset)
  deriving DecidableEq, Repr

inductive FixedLenType where
  | null | int1 | bit | int2 | int4 | datetime4 | float4 | money | datetime | float8 | money4 | int8
  deriving DecidableEq, Repr

namespace FixedLenType

def all : List FixedLenType :=
  [null, int1, bit, int2, int4, datetime4, float4, money, datetime, float8, money4, int8]

def toByte : FixedLenType → UInt8
  | null => 0x1F
  | int1 => 0x30
  | bit => 0x32
  | int2 => 0x34
  | int4 => 0x38
  | datetime4 => 0x3A
  | float4 => 0x3B
  | money => 0x3C
  | datetime => 0x3D
  | float8 => 0x3E
  | money4 => 0x7A
  | int8 => 0x7F

/-- The name of a variant as `{:?}` prints it. -/
def debug : FixedLenType → String
  | null => "Null"
  | int1 => "Int1"
  | bit => "Bit"
  | int2 => "Int2"
  | int4 => "Int4"
  | datetime4 => "Datetime4"
  | float4 => "Float4"
  | money => "Money"
  | datetime => "Datetime"
  | float8 => "Float8"
  | money4 => "Money4"
  | int8 => "Int8"

def tryFrom (byte : UInt8) : Option FixedLenType := all.find? fun ty => ty.toByte == byte

end FixedLenType

inductive VarLenType where
  | guid | intn | bitn | decimaln | numericn | floatn | money | datetimen | daten | timen | datetime2
  | datetimeOffsetn | bigVarBin | bigVarChar | bigBinary | bigChar | nvarchar | nchar | xml | udt
  | text | image | ntext | ssVariant
  deriving DecidableEq, Repr

namespace VarLenType

def all : List VarLenType :=
  [guid, intn, bitn, decimaln, numericn, floatn, money, datetimen, daten, timen, datetime2,
    datetimeOffsetn, bigVarBin, bigVarChar, bigBinary, bigChar, nvarchar, nchar, xml, udt, text,
    image, ntext, ssVariant]

def toByte : VarLenType → UInt8
  | guid => 0x24
  | intn => 0x26
  | bitn => 0x68
  | decimaln => 0x6A
  | numericn => 0x6C
  | floatn => 0x6D
  | money => 0x6E
  | datetimen => 0x6F
  | daten => 0x28
  | timen => 0x29
  | datetime2 => 0x2A
  | datetimeOffsetn => 0x2B
  | bigVarBin => 0xA5
  | bigVarChar => 0xA7
  | bigBinary => 0xAD
  | bigChar => 0xAF
  | nvarchar => 0xE7
  | nchar => 0xEF
  | xml => 0xF1
  | udt => 0xF0
  | text => 0x23
  | image => 0x22
  | ntext => 0x63
  | ssVariant => 0x62

/-- The name of a variant as `{:?}` prints it. -/
def debug : VarLenType → String
  | guid => "Guid"
  | intn => "Intn"
  | bitn => "Bitn"
  | decimaln => "Decimaln"
  | numericn => "Numericn"
  | floatn => "Floatn"
  | money => "Money"
  | datetimen => "Datetimen"
  | daten => "Daten"
  | timen => "Timen"
  | datetime2 => "Datetime2"
  | datetimeOffsetn => "DatetimeOffsetn"
  | bigVarBin => "BigVarBin"
  | bigVarChar => "BigVarChar"
  | bigBinary => "BigBinary"
  | bigChar => "BigChar"
  | nvarchar => "NVarchar"
  | nchar => "NChar"
  | xml => "Xml"
  | udt => "Udt"
  | text => "Text"
  | image => "Image"
  | ntext => "NText"
  | ssVariant => "SSVariant"

def tryFrom (byte : UInt8) : Option VarLenType := all.find? fun ty => ty.toByte == byte

end VarLenType

/-- A variable-length type with its length and, for text, its collation. -/
structure VarLenContext where
  type : VarLenType
  len : ℕ
  collation : Option Collation
  deriving DecidableEq, Repr

structure UdtInfo where
  maxByteSize : UInt16
  dbName : String
  schemaName : String
  typeName : String
  assemblyQualifiedName : String
  deriving DecidableEq, Repr

inductive TypeInfo where
  | fixedLen (ty : FixedLenType)
  | varLenSized (cx : VarLenContext)
  | varLenSizedPrecision (ty : VarLenType) (size : ℕ) (precision scale : UInt8)
  | xml (schema : Option XmlSchema) (size : ℕ)
  | udt (info : UdtInfo)
  deriving DecidableEq, Repr

/-- The type of a column as a caller sees it. -/
inductive ColumnType where
  | null | bit | int1 | int2 | int4 | int8 | datetime4 | float4 | float8 | money | datetime | money4
  | guid | intn | bitn | decimaln | numericn | floatn | datetimen | daten | timen | datetime2
  | datetimeOffsetn | bigVarBin | bigVarChar | bigBinary | bigChar | nvarchar | nchar | xml | udt
  | text | image | ntext | ssVariant
  deriving DecidableEq, Repr

namespace ColumnType

def ofFixed : FixedLenType → ColumnType
  | .int1 => int1
  | .bit => bit
  | .int2 => int2
  | .int4 => int4
  | .datetime4 => datetime4
  | .float4 => float4
  | .money => money
  | .datetime => datetime
  | .float8 => float8
  | .money4 => money4
  | .int8 => int8
  | .null => null

def ofVarLen : VarLenType → ColumnType
  | .guid => guid
  | .intn => intn
  | .bitn => bitn
  | .decimaln => decimaln
  | .numericn => numericn
  | .floatn => floatn
  | .money => money
  | .datetimen => datetimen
  | .daten => daten
  | .timen => timen
  | .datetime2 => datetime2
  | .datetimeOffsetn => datetimeOffsetn
  | .bigVarBin => bigVarBin
  | .bigVarChar => bigVarChar
  | .bigBinary => bigBinary
  | .bigChar => bigChar
  | .nvarchar => nvarchar
  | .nchar => nchar
  | .xml => xml
  | .udt => udt
  | .text => text
  | .image => image
  | .ntext => ntext
  | .ssVariant => ssVariant

/-- `ColumnType::from`: integers and floats of a known size show that size. -/
def ofTypeInfo : TypeInfo → ColumnType
  | .fixedLen ty => ofFixed ty
  | .varLenSized cx =>
    match cx.type, cx.len with
    | .intn, 1 => int1
    | .intn, 2 => int2
    | .intn, 4 => int4
    | .intn, 8 => int8
    | .floatn, 4 => float4
    | .floatn, 8 => float8
    | ty, _ => ofVarLen ty
  | .varLenSizedPrecision ty _ _ _ => ofVarLen ty
  | .xml _ _ => xml
  | .udt _ => udt

end ColumnType

end Tiberius
