import Tiberius.TypeInfos

/-!
The encoders of column values. A value goes out under the type of a column, or
with a description of its own when there is none, which is how the parameters of
a procedure call are sent. What an encoder has written before an error stays in
the buffer. Additions that leave their type count as panics, as do assertions.
-/

namespace Tiberius

open Writing Writer

/-- What is taken from the standard library as it is: the texts of its formatter
in messages, the case mapping of text, and the powers of ten whose precision it
leaves open. -/
class StdLib where
  displayF64 : UInt64 → String
  debugTypeInfo : TypeInfo → String
  debugColumnData : ColumnData → String
  debugStr : String → String
  toLowercase : String → String
  powi10 : ℤ → UInt64

/-- A library whose powers of ten are the nearest numbers, that maps the case of
ASCII letters and that prints values as they are written here. -/
@[reducible] def StdLib.exact : StdLib where
  displayF64 bits := toString bits
  debugTypeInfo typeInfo := reprStr typeInfo
  debugColumnData data := reprStr data
  debugStr text := reprStr text
  toLowercase text := text.toLower
  powi10 exponent :=
    if 0 ≤ exponent then f64OfRatio false (10 ^ exponent.toNat) 1
    else f64OfRatio false 1 (10 ^ (-exponent).toNat)

/-- `str::len`: the bytes of a text in UTF-8. -/
def strLen (text : String) : ℕ := text.toList.foldr (fun c bytes => c.utf8Size + bytes) 0

section Floats

/-- A finite binary64 number: its sign, and its magnitude as a quotient. -/
def f64Parts (bits : UInt64) : Option (Bool × ℕ × ℕ) :=
  let negative : Bool := 2 ^ 63 ≤ bits.toNat
  let exponent := bits.toNat / 2 ^ 52 % 2048
  let fraction := bits.toNat % 2 ^ 52
  if exponent = 2047 then none
  else if exponent = 0 then some (negative, fraction, 2 ^ 1074)
  else if 1075 ≤ exponent then some (negative, (fraction + 2 ^ 52) * 2 ^ (exponent - 1075), 1)
  else some (negative, fraction + 2 ^ 52, 2 ^ (1075 - exponent))

/-- A magnitude with its sign, brought into the range of an `i128`. -/
def saturateI128 (negative : Bool) (magnitude : ℕ) : ℤ :=
  if negative then max (-(magnitude : ℤ)) (-2 ^ 127) else min (magnitude : ℤ) (2 ^ 127 - 1)

/-- `(val * 1e4).round() as i128` of a finite number: the product is rounded to
binary64, then to an integer, half away from zero. -/
def moneyScaled (negative : Bool) (num den : ℕ) : ℤ :=
  match f64Parts (f64OfRatio negative (num * 10000) den) with
  | some (_, num, den) => saturateI128 negative ((2 * num + den) / (2 * den))
  | none => saturateI128 negative (2 ^ 128)

/-- `(increments as f64 * factor) as u64`. -/
def scaleIncrements (increments : UInt64) (factor : UInt64) : UInt64 :=
  match f64Parts factor with
  | none => if increments = 0 then 0 else UInt64.ofNat (2 ^ 64 - 1)
  | some (negative, num, den) =>
    match f64Parts (f64OfRatio negative (roundToF64 increments.toNat * num) den) with
    | none => UInt64.ofNat (2 ^ 64 - 1)
    | some (negative, num, den) =>
      if negative then 0 else UInt64.ofNat (min (num / den) (2 ^ 64 - 1))

end Floats

section Numerics

/-- The turns of a digit count; a number has at most as many digits as its value. -/
def countDigits : ℕ → ℕ → ℕ
  | 0, _ => 0
  | fuel + 1, n => if n = 0 then 0 else countDigits fuel (n / 10) + 1

namespace Numeric

def powScale (num : Numeric) : ℤ := 10 ^ num.scale.toNat

def intPart (num : Numeric) : ℤ := num.value.tdiv num.powScale

def decPart (num : Numeric) : ℤ := num.value - num.intPart * num.powScale

/-- The precision as a number of digits. -/
def precision (num : Numeric) : ℕ :=
  let digits := countDigits num.intPart.natAbs num.intPart.natAbs
  if digits = 0 then 1 + num.scale.toNat else digits + num.scale.toNat

def len (num : Numeric) : UInt8 :=
  if 1 ≤ num.precision ∧ num.precision ≤ 9 then 5
  else if 10 ≤ num.precision ∧ num.precision ≤ 19 then 9
  else if 20 ≤ num.precision ∧ num.precision ≤ 28 then 13
  else 17

def encode (num : Numeric) : Writer Unit := do
  putU8 num.len
  putU8 (if num.value < 0 then 0 else 1)
  match num.len.toNat with
  | 5 => .put (toLe 4 num.value.natAbs)
  | 9 => .put (toLe 8 num.value.natAbs)
  | 13 => .put (toLe 12 num.value.natAbs)
  | _ => .put (toLe 16 num.value.natAbs)

/-- A number as `{}` and `{:?}` print it. -/
def display (num : Numeric) : String :=
  let digits := Nat.toDigits 10 num.decPart.natAbs
  (if num.value < 0 then "-" else "") ++ toString num.intPart.natAbs ++ "." ++
    String.ofList (List.replicate (num.scale.toNat - digits.length) '0' ++ digits)

def rescaleOverflow {α : Type} : Except Fault α :=
  .error (.error (.protocol "numeric rescale overflow"))

def inI128 (value : ℤ) : Bool := -2 ^ 127 ≤ value && value < 2 ^ 127

/-- A value at the scale of its column; digits that do not fit are rounded away. -/
def rescale (num : Numeric) (targetScale : UInt8) : Except Fault Numeric :=
  if targetScale = num.scale then .ok num
  else if num.scale < targetScale then
    let factor : ℤ := 10 ^ (targetScale.toNat - num.scale.toNat)
    if inI128 factor && inI128 (num.value * factor) then
      newWithScale (num.value * factor) targetScale
    else rescaleOverflow
  else
    let factor : ℤ := 10 ^ (num.scale.toNat - targetScale.toNat)
    let half := factor.tdiv 2
    let rounded := if 0 ≤ num.value then num.value + half else num.value - half
    if inI128 factor && inI128 rounded then newWithScale (rounded.tdiv factor) targetScale
    else rescaleOverflow

end Numeric

end Numerics

section Temporal

def DateTime.encode (dt : DateTime) : Writer Unit := do
  putU32Le dt.days.toUInt32
  putU32Le dt.secondsFragments

def SmallDateTime.encode (dt : SmallDateTime) : Writer Unit := do
  putU16Le dt.days
  putU16Le dt.secondsFragments

/-- Three bytes; a fourth one that is not zero is refused. -/
def Date.encode (date : Date) : Writer Unit :=
  if 2 ^ 24 ≤ date.days.toNat then
    Writer.protocol ("date day count " ++ toString date.days ++ " is out of the 3-byte range")
  else .put (toLe 3 date.days.toNat)

/-- The width of a time in bytes, by its scale. -/
def Time.len (time : Time) : Writer UInt8 :=
  if time.scale ≤ 2 then pure 3
  else if time.scale ≤ 4 then pure 4
  else if time.scale ≤ 7 then pure 5
  else Writer.protocol ("timen: invalid scale " ++ toString time.scale)

def Time.encode (time : Time) : Writer Unit := do
  let width ← time.len
  if 256 ^ width.toNat ≤ time.increments.toNat then
    Writer.protocol ("time increments " ++ toString time.increments ++ " do not fit the " ++
      toString width ++ "-byte field for scale " ++ toString time.scale)
  else .put (toLe width.toNat time.increments.toNat)

def DateTime2.encode (dt : DateTime2) : Writer Unit := do
  dt.time.encode
  dt.date.encode

def DateTimeOffset.encode (dto : DateTimeOffset) : Writer Unit := do
  dto.datetime2.encode
  putU16Le dto.offset.toUInt16

/-- The days from the first of January of year 1 to that of 1900. -/
def daysYear1To1900 : ℕ := 693595

/-- A `datetime2` sent to a `datetime` column, in 1/300 seconds. -/
def datetime2ToDatetime (dt2 : DateTime2) : Writer DateTime :=
  if dt2.date.days.toNat < daysYear1To1900 then
    .fail (.error (.conversion ("invalid datetime, expecting a date not earlier than 1900-01-01 " ++
      "but got " ++ toString dt2.date.days ++ " days after year 1")))
  else if dt2.time.scale > 9 then
    Writer.protocol ("invalid datetime2 scale " ++ toString dt2.time.scale ++ ", expected 0..=9")
  else
    let nanos := dt2.time.increments.toNat * 10 ^ (9 - dt2.time.scale.toNat)
    pure
      { days := (UInt32.ofNat (dt2.date.days.toNat - daysYear1To1900)).toInt32
        secondsFragments := UInt32.ofNat (nanos * 300 / 1000000000) }

/-- A `datetime2` at the scale of its column. -/
def DateTime2.rescale [StdLib] (dt2 : DateTime2) (scale : UInt8) : DateTime2 :=
  if dt2.time.scale = scale then dt2
  else
    { date := dt2.date
      time :=
        { increments := scaleIncrements dt2.time.increments
            (StdLib.powi10 ((scale.toNat : ℤ) - dt2.time.scale.toNat))
          scale := scale } }

end Temporal

section Money

def bulkInput {α : Type} (message : String) : Writer α := .fail (.error (.bulkInput message))

/-- `put_scaled`: a range check, a length byte unless the column has a fixed
length, and for the wide form the high word first. -/
def putScaled (maxLen : ℕ) (scaled : ℤ) (value : String) (lengthPrefixed : Bool) : Writer Unit :=
  if maxLen = 4 then
    if scaled < -2 ^ 31 ∨ 2 ^ 31 - 1 < scaled then
      bulkInput ("money: value " ++ value ++ " is out of range for smallmoney " ++
        "(-214_748.3648 ..= 214_748.3647)")
    else do
      if lengthPrefixed then putU8 4
      putU32Le (Int32.ofInt scaled).toUInt32
  else if scaled < -2 ^ 63 ∨ 2 ^ 63 - 1 < scaled then
    bulkInput ("money: value " ++ value ++ " is out of range for money " ++
      "(-922_337_203_685_477.5808 ..= 922_337_203_685_477.5807)")
  else do
    if lengthPrefixed then putU8 8
    putU32Le (Int32.ofInt (scaled / 2 ^ 32)).toUInt32
    putU32Le (UInt32.ofNat (scaled % 2 ^ 32).toNat)

/-- `money::encode_inner`, for a binary64 number. -/
def encodeMoney [StdLib] (maxLen : ℕ) (bits : UInt64) (lengthPrefixed : Bool) : Writer Unit :=
  match f64Parts bits with
  | none =>
    bulkInput ("money: value " ++ StdLib.displayF64 bits ++
      " is not finite (NaN/Inf cannot be encoded)")
  | some (negative, num, den) =>
    putScaled maxLen (moneyScaled negative num den) (StdLib.displayF64 bits) lengthPrefixed

/-- A number with four digits after the point, half away from zero. -/
def Numeric.toMoney (num : Numeric) : Option ℤ :=
  if num.scale.toNat = 4 then some num.value
  else if num.scale.toNat < 4 then
    let scaled := num.value * 10 ^ (4 - num.scale.toNat)
    if inI128 scaled then some scaled else none
  else
    let divisor : ℤ := 10 ^ (num.scale.toNat - 4)
    let quotient := num.value.tdiv divisor
    let remainder : ℤ := (num.value.tmod divisor).natAbs
    some (if divisor ≤ remainder * 2 then quotient + num.value.sign else quotient)

/-- `money::encode_numeric_inner`. -/
def encodeMoneyNumeric (maxLen : ℕ) (num : Numeric) (lengthPrefixed : Bool) : Writer Unit :=
  match num.toMoney with
  | some scaled => putScaled maxLen scaled num.display lengthPrefixed
  | none => bulkInput ("money: value " ++ num.display ++ " overflows while rescaling to money")

end Money

section Values

/-- A nullable value of a fixed width behind its length, or a length of zero. -/
def putNullable (len : UInt8) : Option (List UInt8) → Writer Unit
  | some bytes => do
    putU8 len
    .put bytes
  | none => putU8 0

def bitBytes (value : Bool) : List UInt8 := [if value then 1 else 0]

def putTooLong {α : Type} (kind : String) (len limit : ℕ) : Writer α :=
  bulkInput (kind ++ " length " ++ toString len ++ " exceed column limit " ++ toString limit)

/-- The one chunk of a value of unknown size, and the terminator behind a chunk
that is not empty. -/
def putChunk (bytes : List UInt8) : Writer Unit := do
  putU64Le 0xfffffffffffffffe
  putU32Le (UInt32.ofNat bytes.length)
  .put bytes
  if bytes.isEmpty then pure () else putU32Le 0

/-- The NULL of a string or binary column, by the size of the column. -/
def putNullLong (limit : ℕ) : Writer Unit :=
  if limit < 0xffff then putU16Le 0xffff else putU64Le 0xffffffffffffffff

def putLong (limit : ℕ) (bytes : List UInt8) : Writer Unit :=
  if limit < 0xffff then do
    putU16Le (UInt16.ofNat bytes.length)
    .put bytes
  else putChunk bytes

/-- The one-chunk encoders assert the length of the text in front of them. -/
def assertStr (text : String) : Writer Unit :=
  if strLen text < 0xffffffff then pure () else .fail .panic

section Codepage

variable [EncodingRs]

def codepageBytes (collation : Option Collation) (text : String) : Writer (List UInt8) :=
  match collation with
  | none => Writer.protocol "string column missing collation"
  | some collation =>
    match collation.codec with
    | .error error => .fail (.error error)
    | .ok codec =>
      match codec.encode text with
      | none => .fail (.error (.encoding "unrepresentable character"))
      | some bytes => pure bytes

/-- A text in a `char` or `varchar` column. The size of a long value stands in
front of the assertion on its length. -/
def putCodepage (vlc : VarLenContext) (text : String) : Writer Unit := do
  let bytes ← codepageBytes vlc.collation text
  if vlc.len < bytes.length then putTooLong "Encoded string" bytes.length vlc.len
  else if vlc.len < 0xffff then putLong vlc.len bytes
  else if strLen text < 0xffffffff then putChunk bytes
  else do
    putU64Le 0xfffffffffffffffe
    .fail .panic

def putUnicode (vlc : VarLenContext) (text : String) : Writer Unit :=
  let payload := putUnits (encodeUtf16 text.toList)
  if vlc.len < payload.length then putTooLong "Encoded string" payload.length vlc.len
  else if vlc.len < 0xffff then putLong vlc.len payload
  else do
    assertStr text
    putChunk payload

/-- The text pointer and the timestamp that a server ignores. -/
def textPointer : List UInt8 := 16 :: List.replicate 24 0

def putText (vlc : VarLenContext) (text : String) : Writer Unit := do
  .put textPointer
  if vlc.type = .text then do
    let bytes ← codepageBytes vlc.collation text
    putU32Le (UInt32.ofNat bytes.length)
    .put bytes
  else
    let payload := putUnits (encodeUtf16 text.toList)
    if 2 ^ 32 ≤ payload.length then .fail .panic
    else do
      putU32Le (UInt32.ofNat payload.length)
      .put payload

end Codepage

def putBinary (vlc : VarLenContext) (bytes : List UInt8) : Writer Unit :=
  if vlc.len < bytes.length then putTooLong "Binary" bytes.length vlc.len
  else putLong vlc.len bytes

/-- `XmlData::encode`. A payload whose size does not fit its field is refused
when it has been written. -/
def XmlData.encode (xml : XmlData) : Writer Unit := do
  putU64Le 0xfffffffffffffffe
  let units := encodeUtf16 xml.data.toList
  if 2 ^ 32 ≤ units.length then .fail .panic
  else if 2 ^ 32 ≤ units.length * 2 then do
    .put (toLe 4 0 ++ putUnits units ++ toLe 4 0)
    Writer.protocol "xml payload byte length overflows u32"
  else do
    putU32Le (UInt32.ofNat (units.length * 2))
    .put (putUnits units)
    putU32Le 0

/-- The base type, the properties and the value of a `sql_variant`; a NULL has none. -/
def variantBody : ColumnData → Option (Writer Unit)
  | .bit (some value) => some (.put (FixedLenType.bit.toByte :: 0 :: bitBytes value))
  | .u8 (some value) => some (.put [FixedLenType.int1.toByte, 0, value])
  | .i16 (some value) =>
    some (.put (FixedLenType.int2.toByte :: 0 :: toLe 2 value.toUInt16.toNat))
  | .i32 (some value) =>
    some (.put (FixedLenType.int4.toByte :: 0 :: toLe 4 value.toUInt32.toNat))
  | .i64 (some value) =>
    some (.put (FixedLenType.int8.toByte :: 0 :: toLe 8 value.toUInt64.toNat))
  | .f32 (some bits) => some (.put (FixedLenType.float4.toByte :: 0 :: toLe 4 bits.toNat))
  | .f64 (some bits) => some (.put (FixedLenType.float8.toByte :: 0 :: toLe 8 bits.toNat))
  | .dateTime (some dt) => some do
    .put [FixedLenType.datetime.toByte, 0]
    dt.encode
  | .smallDateTime (some dt) => some do
    .put [FixedLenType.datetime4.toByte, 0]
    dt.encode
  | .guid (some bytes) => some (.put (VarLenType.guid.toByte :: 0 :: reorderBytes bytes))
  | .numeric (some num) => some do
    .put [VarLenType.numericn.toByte, 2, UInt8.ofNat num.precision, num.scale]
    -- The value of a variant carries no length of its own.
    let value ← num.encode.aside
    .put (value.drop 1)
  | .string (some text) => some (
    let payload := putUnits (encodeUtf16 text.toList)
    if maxVariantPayload < payload.length then
      .fail (.error (.conversion ("sql_variant: string of " ++ toString payload.length ++
        " bytes exceeds the " ++ toString maxVariantPayload ++ " byte limit")))
    else
      .put (VarLenType.nvarchar.toByte :: 7 :: List.replicate 5 0 ++ toLe 2 maxVariantPayload ++
        payload))
  | .binary (some bytes) => some (
    if maxVariantPayload < bytes.length then
      .fail (.error (.conversion ("sql_variant: binary of " ++ toString bytes.length ++
        " bytes exceeds the " ++ toString maxVariantPayload ++ " byte limit")))
    else .put (VarLenType.bigVarBin.toByte :: 2 :: toLe 2 maxVariantPayload ++ bytes))
  | .date (some date) => some do
    .put [VarLenType.daten.toByte, 0]
    date.encode
  | .time (some time) => some do
    .put [VarLenType.timen.toByte, 1, time.scale]
    time.encode
  | .dateTime2 (some dt) => some do
    .put [VarLenType.datetime2.toByte, 1, dt.time.scale]
    dt.encode
  | .dateTimeOffset (some dto) => some do
    .put [VarLenType.datetimeOffsetn.toByte, 1, dto.datetime2.time.scale]
    dto.encode
  | .xml (some _) =>
    some (.fail (.error (.conversion "sql_variant: xml is not a valid sql_variant base type")))
  | _ => none

/-- `sql_variant::encode`: the body is built aside, behind its length. -/
def encodeSqlVariant (data : ColumnData) : Writer Unit :=
  match variantBody data with
  | none => putU32Le 0
  | some body => do
    let bytes ← body.aside
    putU32Le (UInt32.ofNat bytes.length)
    .put bytes

namespace ColumnData

/-- The encoder of a value without a column. Those NULLs that do not write their
type go out as the one of the null type. -/
def encodeUntyped : ColumnData → Writer Unit
  | bit value => do
    .put [VarLenType.bitn.toByte, 1]
    putNullable 1 (value.map bitBytes)
  | u8 value => do
    .put [VarLenType.intn.toByte, 1]
    putNullable 1 (value.map fun value => [value])
  | i16 value => do
    .put [VarLenType.intn.toByte, 2]
    putNullable 2 (value.map fun value => toLe 2 value.toUInt16.toNat)
  | i32 value => do
    .put [VarLenType.intn.toByte, 4]
    putNullable 4 (value.map fun value => toLe 4 value.toUInt32.toNat)
  | i64 value => do
    .put [VarLenType.intn.toByte, 8]
    putNullable 8 (value.map fun value => toLe 8 value.toUInt64.toNat)
  | f32 bits => do
    .put [VarLenType.floatn.toByte, 4]
    putNullable 4 (bits.map fun bits => toLe 4 bits.toNat)
  | f64 bits => do
    .put [VarLenType.floatn.toByte, 8]
    putNullable 8 (bits.map fun bits => toLe 8 bits.toNat)
  | guid bytes => do
    .put [VarLenType.guid.toByte, 16]
    putNullable 16 (bytes.map reorderBytes)
  | string (some text) =>
    let units := encodeUtf16 text.toList
    if strLen text ≤ 4000 then do
      putU8 VarLenType.nvarchar.toByte
      putU16Le 8000
      .put (List.replicate 5 0)
      putU16Le (UInt16.ofNat (units.length * 2))
      .put (putUnits units)
    else do
      putU8 VarLenType.nvarchar.toByte
      putU16Le 0xffff
      .put (List.replicate 5 0)
      if 2 ^ 32 ≤ units.length * 2 then do
        putU64Le 0xfffffffffffffffe
        .fail .panic
      else putChunk (putUnits units)
  | binary (some bytes) =>
    if bytes.length ≤ 8000 then do
      putU8 VarLenType.bigVarBin.toByte
      putU16Le 8000
      putU16Le (UInt16.ofNat bytes.length)
      .put bytes
    else do
      putU8 VarLenType.bigVarBin.toByte
      putU16Le 0xffff
      putChunk bytes
  | dateTime (some dt) => do
    .put [VarLenType.datetimen.toByte, 8, 8]
    dt.encode
  | smallDateTime (some dt) => do
    .put [VarLenType.datetimen.toByte, 4, 4]
    dt.encode
  | date (some value) => do
    .put [VarLenType.daten.toByte, 3]
    value.encode
  | time (some value) => do
    let len ← value.len
    .put [VarLenType.timen.toByte, value.scale, len]
    value.encode
  | dateTime2 (some dt) => do
    let len ← dt.time.len
    .put [VarLenType.datetime2.toByte, dt.time.scale, len + 3]
    dt.encode
  | dateTimeOffset (some dto) => do
    let len ← dto.datetime2.time.len
    .put [VarLenType.datetimeOffsetn.toByte, dto.datetime2.time.scale, len + 5]
    dto.encode
  | xml (some value) => do
    .put [VarLenType.xml.toByte, 0]
    value.encode
  | numeric (some num) => do
    .put [VarLenType.numericn.toByte, num.len, UInt8.ofNat num.precision, num.scale]
    num.encode
  | _ => putU8 FixedLenType.null.toByte

section

variable [StdLib]

def invalidType (data : ColumnData) (typeInfo : TypeInfo) : Writer Unit :=
  bulkInput ("invalid data type, expecting Some(" ++ StdLib.debugTypeInfo typeInfo ++
    ") but found " ++ StdLib.debugColumnData data)

theorem invalidType_elim {p : Prop} {data : ColumnData} {typeInfo : TypeInfo} {bytes : List UInt8}
    (hdone : data.invalidType typeInfo = .done bytes ()) : p :=
  absurd hdone Written.fail_ne_done

/-- The values of a type without a length; none of them is NULL. -/
def encodeFixedLen (data : ColumnData) (ty : FixedLenType) : Writer Unit :=
  match ty, data with
  | .bit, bit (some value) => .put (bitBytes value)
  | .int1, u8 (some value) => putU8 value
  | .int2, i16 (some value) => putU16Le value.toUInt16
  | .int4, i32 (some value) => putU32Le value.toUInt32
  | .int8, i64 (some value) => putU64Le value.toUInt64
  | .float4, f32 (some bits) => putU32Le bits
  | .float8, f64 (some bits) => putU64Le bits
  | .money, f64 (some bits) => encodeMoney 8 bits false
  | .money4, f64 (some bits) => encodeMoney 4 bits false
  | .money, numeric (some num) => encodeMoneyNumeric 8 num false
  | .money4, numeric (some num) => encodeMoneyNumeric 4 num false
  | .datetime, dateTime (some dt) => dt.encode
  | .datetime4, smallDateTime (some dt) => dt.encode
  | ty, data => data.invalidType (.fixedLen ty)

/-- A value whose width depends on its scale, behind its length. -/
def putScaledTime (extra : UInt8) (time : Time) (value : Writer Unit) : Writer Unit := do
  let len ← time.len
  putU8 (len + extra)
  value

variable [EncodingRs]

def encodeVarLen (data : ColumnData) (vlc : VarLenContext) : Writer Unit :=
  match vlc.type, data with
  | .bitn, bit value => putNullable 1 (value.map bitBytes)
  | .intn, u8 value => putNullable 1 (value.map fun value => [value])
  | .intn, i16 value => putNullable 2 (value.map fun value => toLe 2 value.toUInt16.toNat)
  | .intn, i32 value => putNullable 4 (value.map fun value => toLe 4 value.toUInt32.toNat)
  | .intn, i64 value => putNullable 8 (value.map fun value => toLe 8 value.toUInt64.toNat)
  | .floatn, f32 bits => putNullable 4 (bits.map fun bits => toLe 4 bits.toNat)
  | .floatn, f64 bits => putNullable 8 (bits.map fun bits => toLe 8 bits.toNat)
  | .money, f64 (some bits) => encodeMoney vlc.len bits true
  | .money, numeric (some num) => encodeMoneyNumeric vlc.len num true
  | .money, f64 none | .money, numeric none => putU8 0
  | .guid, guid bytes => putNullable 16 (bytes.map reorderBytes)
  | .bigChar, string (some text) | .bigVarChar, string (some text) => putCodepage vlc text
  | .nvarchar, string (some text) | .nchar, string (some text) => putUnicode vlc text
  | .bigChar, string none | .bigVarChar, string none | .nvarchar, string none
  | .nchar, string none => putNullLong vlc.len
  | .text, string (some text) | .ntext, string (some text) => putText vlc text
  | .text, string none | .ntext, string none => putU8 0
  | .bigBinary, binary (some bytes) | .bigVarBin, binary (some bytes) => putBinary vlc bytes
  | .bigBinary, binary none | .bigVarBin, binary none => putNullLong vlc.len
  | .datetimen, dateTime (some dt) => do
    putU8 8
    dt.encode
  | .datetimen, smallDateTime (some dt) => do
    putU8 4
    dt.encode
  | .datetimen, dateTime2 (some dt2) => do
    let dt ← datetime2ToDatetime dt2
    putU8 8
    dt.encode
  | .datetimen, dateTime none | .datetimen, smallDateTime none
  | .datetimen, dateTime2 none => putU8 0
  | .daten, date (some value) => do
    putU8 3
    value.encode
  | .timen, time (some value) => putScaledTime 0 value value.encode
  | .datetime2, dateTime2 (some dt2) =>
    let dt2 := dt2.rescale (UInt8.ofNat vlc.len)
    putScaledTime 3 dt2.time dt2.encode
  | .datetimeOffsetn, dateTimeOffset (some dto) =>
    putScaledTime 5 dto.datetime2.time dto.encode
  | .daten, date none | .timen, time none | .datetime2, dateTime2 none
  | .datetimeOffsetn, dateTimeOffset none => putU8 0
  | .ssVariant, data => encodeSqlVariant data
  | _, data => data.invalidType (.varLenSized vlc)

/-- `ColumnData::encode`. The arms of the source are told apart by the description
first; no two of them apply to one value and one description. -/
def encode (data : ColumnData) : Option TypeInfo → Writer Unit
  | none => data.encodeUntyped
  | some (.fixedLen ty) => data.encodeFixedLen ty
  | some (.varLenSized vlc) => data.encodeVarLen vlc
  | some (.varLenSizedPrecision ty size precision scale) =>
    match ty, data with
    | .numericn, numeric (some num) | .decimaln, numeric (some num) => do
      let num ← Written.ofExcept (num.rescale scale)
      num.encode
    | .numericn, numeric none | .decimaln, numeric none => putU8 0
    | ty, data => data.invalidType (.varLenSizedPrecision ty size precision scale)
  | some (.xml schema size) =>
    match data with
    | xml (some value) => value.encode
    | xml none => putU64Le 0xffffffffffffffff
    | data => data.invalidType (.xml schema size)
  | some (.udt info) => data.invalidType (.udt info)

end

end ColumnData

end Values

section Metadata

/-- The `encode_us_varchar` of the column metadata, with an error of its own. -/
def encodeTableName (tableName : String) : Writer Unit :=
  let units := encodeUtf16 tableName.toList
  if 65535 < units.length then
    bulkInput ("table name is too long (" ++ toString units.length ++
      " UTF-16 code units, max 65535)")
  else do
    putU16Le (UInt16.ofNat units.length)
    .put (putUnits units)

/-- The types that carry the name of their table in the metadata. -/
def TypeInfo.emitsTableName : TypeInfo → Bool
  | .varLenSized ctx =>
    match ctx.type with
    | .text | .ntext | .image => true
    | _ => false
  | _ => false

def BaseMetaDataColumn.encode (base : BaseMetaDataColumn) : Writer Unit := do
  putU16Le base.flags
  base.ty.encode
  if base.ty.emitsTableName then encodeTableName (base.tableName.getD "") else pure ()

def MetaDataColumn.encode (column : MetaDataColumn) : Writer Unit := do
  putU32Le 0
  column.base.encode
  putField (encodeBVarchar column.colName)

def TokenColMetaData.encodeColumns : List MetaDataColumn → Writer Unit
  | [] => pure ()
  | column :: columns => do
    column.encode
    encodeColumns columns

/-- `TokenColMetaData::encode`. -/
def TokenColMetaData.encode (metadata : TokenColMetaData) : Writer Unit := do
  putU8 0x81
  putU16Le (UInt16.ofNat metadata.columns.length)
  encodeColumns metadata.columns

end Metadata

end Tiberius
