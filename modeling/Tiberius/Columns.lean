import Tiberius.Context

/-!
The decoders of column values and of the type information that selects them.
Each follows its source function read by read: the prefix it reads, the lengths
it accepts, and the text of the error for those it does not.
-/

namespace Tiberius

open Reading Reader

/-- The cap on an up-front reservation, and so on one window of a bulk read. -/
def maxPrealloc : ℕ := 8192

/-- The ceiling on the total size of one partially length-prefixed value. -/
def maxPlpSize : ℕ := 2 ^ 31 - 1

/-- The ceiling on the value part of a `sql_variant`. -/
def maxVariantPayload : ℕ := 8000

def readCollation : Reader Collation := do
  let info ← readU32Le
  let sortId ← readU8
  pure { info := info, sortId := sortId }

/-- The length field of a variable-length type. -/
def VarLenType.readLen : VarLenType → Reader ℕ
  | timen | datetimeOffsetn | datetime2 => do
    let len ← readU8
    pure len.toNat
  | daten => pure 3
  | bitn | intn | floatn | decimaln | numericn | guid | money | datetimen => do
    let len ← readU8
    pure len.toNat
  | nchar | bigChar | nvarchar | bigVarChar | bigBinary | bigVarBin => do
    let len ← readU16Le
    pure len.toNat
  | image | text | ntext | ssVariant => do
    let len ← readU32Le
    pure len.toNat
  | ty => protocol ("unsupported column type in COLMETADATA: " ++ ty.debug)

def VarLenType.hasCollation : VarLenType → Bool
  | ntext | text | bigChar | nchar | nvarchar | bigVarChar => true
  | _ => false

def TypeInfo.decodeXml : Reader TypeInfo := do
  let hasSchema ← readU8
  if hasSchema = 1 then
    let dbName ← readBVarchar
    let owner ← readBVarchar
    let collection ← readUsVarchar
    pure (.xml (some { dbName := dbName, owner := owner, collection := collection })
      0xfffffffffffffffe)
  else pure (.xml none 0xfffffffffffffffe)

def TypeInfo.decodeUdt : Reader TypeInfo := do
  let maxByteSize ← readU16Le
  let dbName ← readBVarchar
  let schemaName ← readBVarchar
  let typeName ← readBVarchar
  let assemblyQualifiedName ← readUsVarchar
  pure (.udt
    { maxByteSize := maxByteSize
      dbName := dbName
      schemaName := schemaName
      typeName := typeName
      assemblyQualifiedName := assemblyQualifiedName })

/-- A precision of at most 38 and a scale of at most the precision. -/
def TypeInfo.decodePrecision (ty : VarLenType) (len : ℕ) : Reader TypeInfo := do
  let precision ← readU8
  let scale ← readU8
  if precision > 38 ∨ scale > precision then
    protocol ("decimal/numeric: invalid precision " ++ toString precision ++ " / scale " ++
      toString scale)
  else pure (.varLenSizedPrecision ty len precision scale)

def TypeInfo.decodeVarLen (ty : VarLenType) : Reader TypeInfo := do
  let len ← ty.readLen
  let collation ← if ty.hasCollation then do
      let collation ← readCollation
      pure (some collation)
    else pure none
  match ty with
  | .decimaln | .numericn => decodePrecision ty len
  | _ => pure (.varLenSized { type := ty, len := len, collation := collation })

def TypeInfo.decode : Reader TypeInfo := do
  let ty ← readU8
  match FixedLenType.tryFrom ty with
  | some fixed => pure (.fixedLen fixed)
  | none =>
    match VarLenType.tryFrom ty with
    | none => protocol ("invalid or unsupported column type: " ++ toString ty)
    | some .xml => decodeXml
    | some .udt => decodeUdt
    | some ty => decodeVarLen ty

/-- The chunks of a value of unknown size. Every chunk holds at least one byte,
so with no `room` left the value has reached the ceiling and any chunk exceeds it. -/
def plpChunks : ℕ → List UInt8 → Reader (List UInt8)
  | 0, data => do
    let chunkSize ← readU32Le
    if chunkSize = 0 then pure data
    else protocol ("PLP value exceeds the maximum supported size of " ++ toString maxPlpSize ++
      " bytes")
  | room + 1, data => do
    let chunkSize ← readU32Le
    if chunkSize = 0 then pure data
    else if data.length + chunkSize.toNat > maxPlpSize then
      protocol ("PLP value exceeds the maximum supported size of " ++ toString maxPlpSize ++
        " bytes")
    else
      let chunk ← readBytesInto chunkSize.toNat maxPrealloc
      plpChunks room (data ++ chunk)

/-- `plp::decode`: a short value with its length, or a value in chunks. -/
def decodePlp (len : ℕ) : Reader (Option (List UInt8)) :=
  if len < 0xffff then do
    let len ← readU16Le
    if len = 0xffff then pure none
    else
      let data ← readBytesInto len.toNat maxPrealloc
      pure (some data)
  else do
    let len ← readU64Le
    if len = 0xffffffffffffffff then pure none
    else
      let data ← plpChunks maxPlpSize []
      pure (some data)

section Text

variable [EncodingRs]

/-- Text of a code page, strict or with replacement characters. -/
def decodeCodepage (collation : Collation) (bytes : List UInt8) (invalid : String) :
    Reader String := do
  let codec ← ofResult collation.codec
  let lossy ← context Context.lossyCodepage
  if lossy then pure (codec.decodeLossy bytes)
  else
    match codec.decode bytes with
    | some text => pure text
    | none => reject (.encoding invalid)

/-- `string::decode`. -/
def decodeString (ty : VarLenType) (len : ℕ) (collation : Option Collation) :
    Reader (Option String) := do
  let data ← decodePlp len
  match data with
  | none => pure none
  | some bytes =>
    if ty = .bigChar ∨ ty = .bigVarChar then
      match collation with
      | none => protocol "string column missing collation"
      | some collation =>
        let text ← decodeCodepage collation bytes "invalid sequence"
        pure (some text)
    else if bytes.length % 2 ≠ 0 then protocol "nvarchar: invalid plp length"
    else
      let lossy ← context Context.lossyUtf16
      if (ty = .nchar ∨ ty = .nvarchar) ∧ lossy then pure (some (fromUtf16Lossy (unitsLe bytes)))
      else
        match fromUtf16 (unitsLe bytes) with
        | some text => pure (some text)
        | none => protocol "nvarchar: invalid UTF-16 sequence"

/-- The text pointer and timestamp in front of a legacy large value. -/
def skipTextPointer (ptrLen : ℕ) : Reader Unit := do
  let _ ← readBytesInto ptrLen maxPrealloc
  let _ ← readI32Le
  let _ ← readU32Le
  pure ()

/-- `text::decode`: TEXT with a collation, NTEXT without. -/
def decodeText (collation : Option Collation) : Reader ColumnData := do
  let ptrLen ← readU8
  if ptrLen = 0 then pure (.string none)
  else
    skipTextPointer ptrLen.toNat
    match collation with
    | some collation =>
      -- The code page is looked up before the text is read.
      let codec ← ofResult collation.codec
      let textLen ← readU32Le
      let bytes ← readBytesInto textLen.toNat maxPrealloc
      let lossy ← context Context.lossyCodepage
      if lossy then pure (.string (some (codec.decodeLossy bytes)))
      else
        match codec.decode bytes with
        | some text => pure (.string (some text))
        | none => reject (.encoding "invalid sequence")
    | none =>
      let byteLen ← readU32Le
      if byteLen.toNat % 2 ≠ 0 then
        protocol ("ntext: odd byte length " ++ toString byteLen ++ " is invalid")
      else
        let raw ← readBytesInto byteLen.toNat maxPrealloc
        let lossy ← context Context.lossyUtf16
        if lossy then pure (.string (some (fromUtf16Lossy (unitsLe raw))))
        else
          match fromUtf16 (unitsLe raw) with
          | some text => pure (.string (some text))
          | none => reject .utf16

end Text

def decodeImage : Reader ColumnData := do
  let ptrLen ← readU8
  if ptrLen = 0 then pure (.binary none)
  else
    skipTextPointer ptrLen.toNat
    let len ← readU32Le
    let bytes ← readBytesInto len.toNat maxPrealloc
    pure (.binary (some bytes))

def decodeBit : Reader ColumnData := do
  let recvLen ← readU8
  match recvLen.toNat with
  | 0 => pure (.bit none)
  | 1 => do
    let value ← readU8
    pure (.bit (some (value > 0)))
  | len => protocol ("bitn: length of " ++ toString len ++ " is invalid")

def decodeInt (typeLen : ℕ) : Reader ColumnData := do
  let recvLen ← readU8
  match recvLen.toNat, typeLen with
  | 0, 1 => pure (.u8 none)
  | 0, 2 => pure (.i16 none)
  | 0, 4 => pure (.i32 none)
  | 0, _ => pure (.i64 none)
  | 1, _ => do
    let value ← readU8
    pure (.u8 (some value))
  | 2, _ => do
    let value ← readI16Le
    pure (.i16 (some value))
  | 4, _ => do
    let value ← readI32Le
    pure (.i32 (some value))
  | 8, _ => do
    let value ← readI64Le
    pure (.i64 (some value))
  | len, _ => protocol ("intn: length of " ++ toString len ++ " is invalid")

def decodeFloat (typeLen : ℕ) : Reader ColumnData := do
  let len ← readU8
  match len.toNat, typeLen with
  | 0, 4 => pure (.f32 none)
  | 0, _ => pure (.f64 none)
  | 4, _ => do
    let bits ← readU32Le
    pure (.f32 (some bits))
  | 8, _ => do
    let bits ← readU64Le
    pure (.f64 (some bits))
  | len, _ => protocol ("floatn: length of " ++ toString len ++ " is invalid")

/-- `guid::reorder_bytes`: the first three fields change their byte order. -/
def reorderBytes : List UInt8 → List UInt8
  | b0 :: b1 :: b2 :: b3 :: b4 :: b5 :: b6 :: b7 :: rest =>
    b3 :: b2 :: b1 :: b0 :: b5 :: b4 :: b7 :: b6 :: rest
  | bytes => bytes

def decodeGuid : Reader ColumnData := do
  let len ← readU8
  match len.toNat with
  | 0 => pure (.guid none)
  | 16 => do
    let bytes ← readBytesInto 16 16
    pure (.guid (some (reorderBytes bytes)))
  | len => protocol ("guid: length of " ++ toString len ++ " is invalid")

/-- An amount in ten-thousandths as the nearest binary64 number; the amount
itself has been rounded to binary64 before the division. -/
def moneyToF64 (scaled : ℤ) : UInt64 :=
  f64OfRatio (scaled < 0) (roundToF64 scaled.natAbs) 10000

def decodeMoney (len : UInt8) : Reader ColumnData :=
  match len.toNat with
  | 0 => pure (.f64 none)
  | 4 => do
    let value ← readI32Le
    pure (.f64 (some (moneyToF64 value.toInt)))
  | 8 => do
    let high ← readI32Le
    let low ← readU32Le
    pure (.f64 (some (moneyToF64 (high.toInt * 2 ^ 32 + low.toNat))))
  | len => protocol ("money: length of " ++ toString len ++ " is invalid")

def DateTime.decode : Reader DateTime := do
  let days ← readI32Le
  let secondsFragments ← readU32Le
  pure { days := days, secondsFragments := secondsFragments }

def SmallDateTime.decode : Reader SmallDateTime := do
  let days ← readU16Le
  let secondsFragments ← readU16Le
  pure { days := days, secondsFragments := secondsFragments }

def decodeDatetimen (rlen len : UInt8) : Reader ColumnData :=
  match rlen.toNat, len.toNat with
  | 0, 4 => pure (.smallDateTime none)
  | 0, 8 => pure (.dateTime none)
  | 4, _ => do
    let value ← SmallDateTime.decode
    pure (.smallDateTime (some value))
  | 8, _ => do
    let value ← DateTime.decode
    pure (.dateTime (some value))
  | _, len => protocol ("datetimen: length of " ++ toString len ++ " is invalid")

/-- `Date::new` asserts that the days fit three bytes. -/
def Date.new (days : UInt32) : Reader Date :=
  if days >>> 24 = 0 then .ret { days := days } else .fail .panic

def Date.decode : Reader Date := do
  let bytes ← readExact 3
  Date.new (getU32Le bytes)

def decodeDate : Reader ColumnData := do
  let len ← readU8
  match len.toNat with
  | 0 => pure (.date none)
  | 3 => do
    let value ← Date.decode
    pure (.date (some value))
  | len => protocol ("daten: length of " ++ toString len ++ " is invalid")

/-- `Time::decode`: the width must be the one of the scale `n`. -/
def Time.decode (n rlen : ℕ) : Reader Time := do
  let increments ←
    if n ≤ 2 ∧ rlen = 3 then do
      let hi ← readU16Le
      let lo ← readU8
      pure (hi.toUInt64 ||| lo.toUInt64 <<< 16)
    else if 3 ≤ n ∧ n ≤ 4 ∧ rlen = 4 then do
      let value ← readU32Le
      pure value.toUInt64
    else if 5 ≤ n ∧ n ≤ 7 ∧ rlen = 5 then do
      let hi ← readU32Le
      let lo ← readU8
      pure (hi.toUInt64 ||| lo.toUInt64 <<< 32)
    else protocol ("timen: invalid length " ++ toString n)
  pure { increments := increments, scale := UInt8.ofNat n }

def decodeTime (len : ℕ) : Reader ColumnData := do
  let rlen ← readU8
  if rlen = 0 then pure (.time none)
  else if 3 ≤ rlen ∧ rlen ≤ 5 then
    let value ← Time.decode len rlen.toNat
    pure (.time (some value))
  else protocol ("timen: invalid value length " ++ toString rlen)

def DateTime2.decode (n rlen : ℕ) : Reader DateTime2 := do
  let time ← Time.decode n rlen
  let date ← Date.decode
  pure { date := date, time := time }

def decodeDatetime2 (len : ℕ) : Reader ColumnData := do
  let rlen ← readU8
  if rlen = 0 then pure (.dateTime2 none)
  else if rlen < 3 then protocol ("datetime2: invalid value length " ++ toString rlen)
  else
    let value ← DateTime2.decode len (rlen.toNat - 3)
    pure (.dateTime2 (some value))

def DateTimeOffset.decode (n rlen : ℕ) : Reader DateTimeOffset := do
  let datetime2 ← DateTime2.decode n rlen
  let offset ← readI16Le
  pure { datetime2 := datetime2, offset := offset }

def decodeDatetimeoffsetn (len : ℕ) : Reader ColumnData := do
  let rlen ← readU8
  if rlen = 0 then pure (.dateTimeOffset none)
  else if rlen < 5 then protocol ("datetimeoffset: invalid value length " ++ toString rlen)
  else
    let value ← DateTimeOffset.decode len (rlen.toNat - 5)
    pure (.dateTimeOffset (some value))

def decodeBinary (len : ℕ) : Reader ColumnData := do
  let data ← decodePlp len
  pure (.binary data)

/-- The values of user-defined types are always sent in chunks. -/
def decodeUdtValue : Reader ColumnData := do
  let data ← decodePlp 0xffffffff
  pure (.binary data)

def Numeric.signOf (byte : UInt8) : Option ℤ :=
  if byte = 0 then some (-1) else if byte = 1 then some 1 else none

/-- `Numeric::decode`: sign, then a magnitude of 4, 8, 12 or 16 bytes. -/
def Numeric.decode (scale : UInt8) : Reader (Option Numeric) := do
  let len ← readU8
  if len = 0 then pure none
  else
    let byte ← readU8
    match signOf byte with
    | none => protocol "decimal: invalid sign"
    | some sign =>
      let magnitude ←
        match len.toNat with
        | 5 => do
          let value ← readU32Le
          pure value.toNat
        | 9 => do
          let value ← readU64Le
          pure value.toNat
        | 13 => do
          let bytes ← readBytesInto 12 12
          pure (leNat bytes)
        | 17 => do
          let bytes ← readBytesInto 16 16
          if leNat bytes > 2 ^ 127 - 1 then
            protocol "decimal/numeric: magnitude exceeds the representable range"
          else pure (leNat bytes)
        | len => protocol ("decimal/numeric: invalid length of " ++ toString len ++ " received")
      let value ← Program.ofExcept (newWithScale (magnitude * sign) scale)
      pure (some value)

def decodeFixedLen : FixedLenType → Reader ColumnData
  | .null => pure (.i32 none)
  | .bit => do
    let value ← readU8
    pure (.bit (some (value != 0)))
  | .int1 => do
    let value ← readU8
    pure (.u8 (some value))
  | .int2 => do
    let value ← readI16Le
    pure (.i16 (some value))
  | .int4 => do
    let value ← readI32Le
    pure (.i32 (some value))
  | .int8 => do
    let value ← readI64Le
    pure (.i64 (some value))
  | .float4 => do
    let bits ← readU32Le
    pure (.f32 (some bits))
  | .float8 => do
    let bits ← readU64Le
    pure (.f64 (some bits))
  | .datetime => decodeDatetimen 8 8
  | .datetime4 => decodeDatetimen 4 8
  | .money4 => decodeMoney 4
  | .money => decodeMoney 8

/-- The checks of a variant's declared lengths. -/
def checkPropBytes (got want : ℕ) : Reader Unit :=
  if got ≠ want then
    protocol ("sql_variant: expected " ++ toString want ++ " property byte(s), got " ++
      toString got)
  else pure ()

def checkDataLen (got want : ℕ) : Reader Unit :=
  if got ≠ want then
    protocol ("sql_variant: expected value length " ++ toString want ++ ", got " ++ toString got)
  else pure ()

/-- The numeric value of a `sql_variant`; its magnitude is built in checked
`i128` arithmetic. -/
def decodeVariantNumeric (dataLen : ℕ) (scale : UInt8) : Reader ColumnData := do
  if dataLen = 0 then protocol "sql_variant: empty numeric value"
  else if scale > 38 then
    protocol ("sql_variant: invalid numeric scale " ++ toString scale)
  else
    let byte ← readU8
    match Numeric.signOf byte with
    | none => protocol "sql_variant: invalid numeric sign"
    | some sign =>
      let magnitude ← readBytesInto (dataLen - 1) maxPrealloc
      if magnitude.length = 4 ∨ magnitude.length = 8 ∨ magnitude.length = 12 ∨
          magnitude.length = 16 then
        if leNat magnitude > 2 ^ 127 - 1 then
          protocol "sql_variant: numeric magnitude out of range"
        else
          let value ← Program.ofExcept (Numeric.newWithScale (leNat magnitude * sign) scale)
          pure (.numeric (some value))
      else
        protocol ("sql_variant: invalid numeric magnitude length " ++ toString magnitude.length)

section Decode

variable [EncodingRs]

/-- The value of a `sql_variant` whose base type has a variable length. -/
def decodeVariantVarLen (propBytes dataLen : ℕ) : VarLenType → Reader ColumnData
  | .guid => do
    checkPropBytes propBytes 0
    checkDataLen dataLen 16
    let bytes ← readBytesInto 16 maxPrealloc
    pure (.guid (some (reorderBytes bytes)))
  | .decimaln | .numericn => do
    checkPropBytes propBytes 2
    let _ ← readU8
    let scale ← readU8
    decodeVariantNumeric dataLen scale
  | .bigChar | .bigVarChar => do
    checkPropBytes propBytes 7
    let collation ← readCollation
    let _ ← readU16Le
    let bytes ← readBytesInto dataLen maxPrealloc
    let text ← decodeCodepage collation bytes "sql_variant: invalid sequence"
    pure (.string (some text))
  | .nchar | .nvarchar => do
    checkPropBytes propBytes 7
    let _ ← readCollation
    let _ ← readU16Le
    let bytes ← readBytesInto dataLen maxPrealloc
    if bytes.length % 2 ≠ 0 then protocol "sql_variant: invalid nchar length"
    else
      match fromUtf16 (unitsLe bytes) with
      | some text => pure (.string (some text))
      | none => reject .utf16
  | .bigBinary | .bigVarBin => do
    checkPropBytes propBytes 2
    let _ ← readU16Le
    let bytes ← readBytesInto dataLen maxPrealloc
    pure (.binary (some bytes))
  | .daten => do
    checkPropBytes propBytes 0
    checkDataLen dataLen 3
    let value ← Date.decode
    pure (.date (some value))
  | .timen => do
    checkPropBytes propBytes 1
    let scale ← readU8
    let value ← Time.decode scale.toNat dataLen
    pure (.time (some value))
  | .datetime2 => do
    checkPropBytes propBytes 1
    let scale ← readU8
    if dataLen < 3 then protocol "sql_variant: datetime2 value too short"
    else
      let value ← DateTime2.decode scale.toNat (dataLen - 3)
      pure (.dateTime2 (some value))
  | .datetimeOffsetn => do
    checkPropBytes propBytes 1
    let scale ← readU8
    if dataLen < 5 then protocol "sql_variant: datetimeoffset value too short"
    else if dataLen - 5 > 255 then
      protocol "sql_variant: datetimeoffset time length too large"
    else
      let value ← DateTimeOffset.decode scale.toNat (dataLen - 5)
      pure (.dateTimeOffset (some value))
  | other => protocol ("sql_variant: unsupported base type " ++ other.debug)

/-- `sql_variant::decode`: total length, base type, properties, value. -/
def decodeSqlVariant : Reader ColumnData := do
  let total ← readU32Le
  let totalLen := total.toNat
  if totalLen = 0 then pure (.string none)
  else if totalLen < 2 then
    protocol ("sql_variant: invalid total length " ++ toString totalLen)
  else
    let baseType ← readU8
    let prop ← readU8
    let propBytes := prop.toNat
    if totalLen < 2 + propBytes then
      protocol ("sql_variant: total length " ++ toString totalLen ++ " too small for " ++
        toString propBytes ++ " property bytes")
    else
      let dataLen := totalLen - 2 - propBytes
      if dataLen > maxVariantPayload then
        protocol ("sql_variant: value length " ++ toString dataLen ++ " exceeds the maximum")
      else
        match FixedLenType.tryFrom baseType with
        | some fixed =>
          if propBytes ≠ 0 then
            protocol ("sql_variant: fixed base type " ++ fixed.debug ++
              " must not carry property bytes")
          else decodeFixedLen fixed
        | none =>
          match VarLenType.tryFrom baseType with
          | none =>
            protocol ("sql_variant: unknown base type " ++ hexAlternate 4 baseType.toNat)
          | some var => decodeVariantVarLen propBytes dataLen var

def decodeVarLen (ctx : VarLenContext) : Reader ColumnData :=
  match ctx.type with
  | .bitn => decodeBit
  | .intn => decodeInt ctx.len
  | .floatn => decodeFloat ctx.len
  | .guid => decodeGuid
  | .bigChar | .bigVarChar | .nchar | .nvarchar => do
    let text ← decodeString ctx.type ctx.len ctx.collation
    pure (.string text)
  | .money => do
    let len ← readU8
    decodeMoney len
  | .datetimen => do
    let rlen ← readU8
    decodeDatetimen rlen (UInt8.ofNat ctx.len)
  | .daten => decodeDate
  | .timen => decodeTime ctx.len
  | .datetime2 => decodeDatetime2 ctx.len
  | .datetimeOffsetn => decodeDatetimeoffsetn ctx.len
  | .bigBinary | .bigVarBin => decodeBinary ctx.len
  | .text => decodeText ctx.collation
  | .ntext => decodeText none
  | .image => decodeImage
  | .ssVariant => decodeSqlVariant
  | ty => protocol ("unsupported column type: " ++ ty.debug)

def decodeXmlValue (len : ℕ) (schema : Option XmlSchema) : Reader ColumnData := do
  let text ← decodeString .xml len none
  pure (.xml (text.map fun data => { data := data, schema := schema }))

def ColumnData.decode (ctx : TypeInfo) : Reader ColumnData :=
  match ctx with
  | .fixedLen ty => decodeFixedLen ty
  | .varLenSized cx => decodeVarLen cx
  | .varLenSizedPrecision ty _ _ scale =>
    match ty with
    | .decimaln | .numericn => do
      let value ← Numeric.decode scale
      pure (.numeric value)
    | ty =>
      protocol ("unexpected type " ++ ty.debug ++ " for a precision/scale-typed column")
  | .xml schema size => decodeXmlValue size schema
  | .udt _ => decodeUdtValue

end Decode

/-- The NULL of a variable-length type that gives no size. -/
def VarLenType.nullValue : VarLenType → ColumnData
  | guid => .guid none
  | intn => .i32 none
  | bitn => .bit none
  | decimaln | numericn => .numeric none
  | floatn => .f32 none
  | money => .f64 none
  | datetimen => .dateTime none
  | daten => .date none
  | timen => .time none
  | datetime2 => .dateTime2 none
  | datetimeOffsetn => .dateTimeOffset none
  | bigVarBin | bigBinary | udt | image => .binary none
  | bigVarChar | bigChar | nvarchar | nchar | text | ntext | ssVariant => .string none
  | xml => .xml none

def FixedLenType.nullValue : FixedLenType → ColumnData
  | null | int4 => .i32 none
  | int1 => .u8 none
  | bit => .bit none
  | int2 => .i16 none
  | datetime4 => .smallDateTime none
  | float4 | money4 => .f32 none
  | money | float8 => .f64 none
  | datetime => .dateTime none
  | int8 => .i64 none

/-- The value of a column that a packed row marks as NULL. -/
def BaseMetaDataColumn.nullValue (column : BaseMetaDataColumn) : ColumnData :=
  match column.ty with
  | .fixedLen ty => ty.nullValue
  | .varLenSized cx =>
    match cx.type, cx.len with
    | .intn, 1 => .u8 none
    | .intn, 2 => .i16 none
    | .intn, 4 => .i32 none
    | .intn, _ => .i64 none
    | .floatn, 4 => .f32 none
    | .floatn, _ => .f64 none
    | ty, _ => ty.nullValue
  | .varLenSizedPrecision ty _ _ _ => ty.nullValue
  | .xml _ _ => .xml none
  | .udt _ => .binary none

/-- The parts of a table name in front of a legacy large column are skipped. -/
def TypeInfo.skipTableName : TypeInfo → Reader Unit
  | .varLenSized cx =>
    if cx.type = .text ∨ cx.type = .ntext ∨ cx.type = .image then do
      let parts ← readU8
      let _ ← readUsVarchar.times parts.toNat
      pure ()
    else pure ()
  | _ => pure ()

def BaseMetaDataColumn.decode : Reader BaseMetaDataColumn := do
  let _ ← readU32Le
  let flags ← readU16Le
  let ty ← TypeInfo.decode
  ty.skipTableName
  pure { flags := flags &&& columnFlagMask, ty := ty, tableName := none }

def MetaDataColumn.decode : Reader MetaDataColumn := do
  let base ← BaseMetaDataColumn.decode
  let colName ← readBVarchar
  pure { base := base, colName := colName }

/-- A count of 0xffff announces no metadata. -/
def TokenColMetaData.decode : Reader TokenColMetaData := do
  let columnCount ← readU16Le
  if columnCount < 0xffff then
    let columns ← MetaDataColumn.decode.times columnCount.toNat
    pure { columns := columns }
  else pure { columns := [] }

def AltMetaDataColumn.decode : Reader AltMetaDataColumn := do
  let op ← readU8
  let operand ← readU16Le
  let base ← BaseMetaDataColumn.decode
  let colName ← readBVarchar
  pure { op := op, operand := operand, base := base, colName := colName }

def TokenAltMetaData.decode : Reader TokenAltMetaData := do
  let columnCount ← readU16Le
  let id ← readU16Le
  let byCols ← readU8
  let byColumns ← readU16Le.times byCols.toNat
  let columns ← AltMetaDataColumn.decode.times columnCount.toNat
  pure { id := id, byColumns := byColumns, columns := columns }

end Tiberius
