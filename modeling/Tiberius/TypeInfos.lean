import Tiberius.Fields
import Tiberius.Columns

/-!
The encoder of type information, against the decoder. The two are separate
tables over the types of the protocol. A description that has been read is
written back byte for byte, except for the byte that announces the schema of an
XML column, of which the decoder only keeps whether it is one.
-/

namespace Tiberius

open Reading Reader Program Writing Writer

/-- The length field of a variable-length type, as it is written. -/
def VarLenType.putLen (len : ℕ) : VarLenType → Writer Unit
  | daten => pure ()
  | timen | datetimeOffsetn | datetime2 => putU8 (UInt8.ofNat len)
  | bitn | intn | floatn | decimaln | numericn | guid | money | datetimen =>
    putU8 (UInt8.ofNat len)
  | nchar | bigChar | nvarchar | bigVarChar | bigBinary | bigVarBin =>
    putU16Le (UInt16.ofNat len)
  | image | text | ntext | ssVariant => putU32Le (UInt32.ofNat len)
  | xml => pure ()
  | ty => Writer.protocol ("encoding a " ++ ty.debug ++ " var-len context is not supported")

def putCollation (collation : Collation) : Writer Unit := do
  putU32Le collation.info
  putU8 collation.sortId

def VarLenContext.encode (ctx : VarLenContext) : Writer Unit := do
  putU8 ctx.type.toByte
  ctx.type.putLen ctx.len
  match ctx.collation with
  | some collation => putCollation collation
  | none => pure ()

def TypeInfo.encodeXml (schema : Option XmlSchema) : Writer Unit := do
  putU8 VarLenType.xml.toByte
  match schema with
  | some schema =>
    putU8 1
    putField (encodeBVarchar schema.dbName)
    putField (encodeBVarchar schema.owner)
    putField (encodeUsVarchar schema.collection)
  | none => putU8 0

def TypeInfo.encodeUdt (info : UdtInfo) : Writer Unit := do
  putU8 VarLenType.udt.toByte
  putU16Le info.maxByteSize
  putField (encodeBVarchar info.dbName)
  putField (encodeBVarchar info.schemaName)
  putField (encodeBVarchar info.typeName)
  putField (encodeUsVarchar info.assemblyQualifiedName)

def TypeInfo.encode : TypeInfo → Writer Unit
  | .fixedLen ty => putU8 ty.toByte
  | .varLenSized ctx => ctx.encode
  | .varLenSizedPrecision ty size precision scale => do
    putU8 ty.toByte
    putU8 (UInt8.ofNat size)
    putU8 precision
    putU8 scale
  | .xml schema _ => encodeXml schema
  | .udt info => encodeUdt info

theorem FixedLenType.tryFrom_eq_some_iff {byte : UInt8} {ty : FixedLenType} :
    tryFrom byte = some ty ↔ byte = ty.toByte := by
  constructor
  · intro htry
    have hfound := List.find?_some htry
    exact (beq_iff_eq.mp hfound).symm
  · rintro rfl
    cases ty <;> rfl

theorem VarLenType.tryFrom_eq_some_iff {byte : UInt8} {ty : VarLenType} :
    tryFrom byte = some ty ↔ byte = ty.toByte := by
  constructor
  · intro htry
    have hfound := List.find?_some htry
    exact (beq_iff_eq.mp hfound).symm
  · rintro rfl
    cases ty <;> rfl

section Reads

variable {env : Context} {bytes : List UInt8}

theorem readCollation_reads {collation : Collation} :
    readCollation.Reads env bytes collation ↔
      bytes = toLe 4 collation.info.toNat ++ [collation.sortId] := by
  simp only [readCollation, bind_eq, pure_eq, reads_bind, readU32Le_reads, readU8_reads, reads_ret]
  constructor
  · rintro ⟨_, _, info, rfl, rfl, _, _, sortId, rfl, rfl, rfl, rfl⟩
    rfl
  · rintro rfl
    exact ⟨_, _, _, rfl, rfl, _, _, _, (List.append_nil _).symm, rfl, rfl, rfl⟩

theorem putU8_of_reads {len : ℕ}
    (hreads : (readU8.bind fun len => ret len.toNat).Reads env bytes len) :
    putU8 (UInt8.ofNat len) = .done bytes () := by
  simp only [reads_bind, readU8_reads, reads_ret] at hreads
  obtain ⟨_, _, value, rfl, rfl, rfl, rfl⟩ := hreads
  rw [UInt8.ofNat_toNat]
  rfl

theorem putU16Le_of_reads {len : ℕ}
    (hreads : (readU16Le.bind fun len => ret len.toNat).Reads env bytes len) :
    putU16Le (UInt16.ofNat len) = .done bytes () := by
  simp only [reads_bind, readU16Le_reads, reads_ret] at hreads
  obtain ⟨_, _, value, rfl, rfl, rfl, rfl⟩ := hreads
  rw [UInt16.ofNat_toNat, List.append_nil]
  rfl

theorem putU32Le_of_reads {len : ℕ}
    (hreads : (readU32Le.bind fun len => ret len.toNat).Reads env bytes len) :
    putU32Le (UInt32.ofNat len) = .done bytes () := by
  simp only [reads_bind, readU32Le_reads, reads_ret] at hreads
  obtain ⟨_, _, value, rfl, rfl, rfl, rfl⟩ := hreads
  rw [UInt32.ofNat_toNat, List.append_nil]
  rfl

/-- A length that has been read is written back in the same bytes. -/
theorem VarLenType.putLen_of_reads {ty : VarLenType} {len : ℕ}
    (hreads : ty.readLen.Reads env bytes len) : ty.putLen len = .done bytes () := by
  cases ty with
  | daten =>
    obtain ⟨rfl, rfl⟩ := reads_ret.mp hreads
    rfl
  | timen | datetimeOffsetn | datetime2 => exact putU8_of_reads hreads
  | bitn | intn | floatn | decimaln | numericn | guid | money | datetimen =>
    exact putU8_of_reads hreads
  | nchar | bigChar | nvarchar | bigVarChar | bigBinary | bigVarBin =>
    exact putU16Le_of_reads hreads
  | image | text | ntext | ssVariant => exact putU32Le_of_reads hreads
  | xml | udt => exact (reads_protocol.mp hreads).elim

theorem VarLenContext.encode_plain {ty : VarLenType} {len : ℕ}
    (hlen : ty.readLen.Reads env bytes len) :
    VarLenContext.encode { type := ty, len := len, collation := none } =
      .done (ty.toByte :: bytes) () := by
  simp only [VarLenContext.encode, Written.bind_eq, Written.pure_eq, putU8_eq,
    VarLenType.putLen_of_reads hlen, Written.done_bind, Written.after_done, List.append_nil]
  rfl

theorem VarLenContext.encode_collation {ty : VarLenType} {len : ℕ} {more : List UInt8}
    {collation : Collation} (hlen : ty.readLen.Reads env bytes len)
    (hcollation : readCollation.Reads env more collation) :
    VarLenContext.encode { type := ty, len := len, collation := some collation } =
      .done (ty.toByte :: (bytes ++ more)) () := by
  rw [readCollation_reads] at hcollation
  subst hcollation
  simp only [VarLenContext.encode, putCollation, Written.bind_eq, putU8_eq, putU32Le_eq,
    VarLenType.putLen_of_reads hlen, Written.done_bind, Written.after_done]
  rfl

theorem TypeInfo.encode_of_decodePrecision {ty : VarLenType} {len : ℕ} {more : List UInt8}
    {info : TypeInfo} (hlen : putU8 (UInt8.ofNat len) = .done bytes ())
    (hreads : (decodePrecision ty len).Reads env more info) :
    info.encode = .done (ty.toByte :: (bytes ++ more)) () := by
  simp only [decodePrecision, bind_eq, pure_eq, reads_bind, readU8_reads] at hreads
  obtain ⟨_, _, precision, rfl, rfl, _, _, scale, rfl, rfl, hreads⟩ := hreads
  split_ifs at hreads with hinvalid
  · exact (reads_protocol.mp hreads).elim
  · obtain ⟨rfl, rfl⟩ := reads_ret.mp hreads
    simp only [TypeInfo.encode, hlen, Written.bind_eq, Written.done_bind, putU8_eq,
      Written.after_done]
    rfl

/-- What follows the type byte of a variable-length description. -/
theorem TypeInfo.encode_of_decodeVarLen {ty : VarLenType} {info : TypeInfo}
    (hreads : (decodeVarLen ty).Reads env bytes info) :
    info.encode = .done (ty.toByte :: bytes) () := by
  simp only [decodeVarLen, bind_eq, pure_eq, reads_bind] at hreads
  obtain ⟨first, second, len, rfl, hlen, hinfo⟩ := hreads
  cases ty with
  | decimaln | numericn => exact encode_of_decodePrecision (putU8_of_reads hlen) hinfo
  | text | ntext | bigChar | nchar | nvarchar | bigVarChar =>
    simp only [VarLenType.hasCollation, if_true, reads_bind, ret_bind, reads_ret] at hinfo
    obtain ⟨third, _, collation, rfl, hcollation, rfl, rfl⟩ := hinfo
    rw [List.append_nil]
    exact VarLenContext.encode_collation hlen hcollation
  | _ =>
    obtain ⟨rfl, rfl⟩ := reads_ret.mp hinfo
    rw [List.append_nil]
    exact VarLenContext.encode_plain hlen

theorem TypeInfo.encode_of_decodeUdt {info : TypeInfo} (hreads : decodeUdt.Reads env bytes info) :
    info.encode = .done (VarLenType.udt.toByte :: bytes) () := by
  simp only [decodeUdt, bind_eq, pure_eq, reads_bind, readU16Le_reads, readBVarchar_reads,
    readUsVarchar_reads, reads_ret] at hreads
  obtain ⟨_, _, maxByteSize, rfl, rfl, first, _, dbName, rfl, hdbName, second, _, schemaName, rfl,
    hschemaName, third, _, typeName, rfl, htypeName, fourth, _, assembly, rfl, hassembly, rfl,
    rfl⟩ := hreads
  simp only [TypeInfo.encode, encodeUdt, hdbName, hschemaName, htypeName, hassembly, putField_ok,
    Written.bind_eq, putU8_eq, putU16Le_eq, Written.done_bind, Written.after_done]
  rw [List.append_nil]
  rfl

/-- The bytes of a description with the schema byte of an XML column made 0 where it is not 1. -/
def TypeInfo.normalized : List UInt8 → List UInt8
  | ty :: hasSchema :: rest =>
    if ty = VarLenType.xml.toByte ∧ hasSchema ≠ 0 ∧ hasSchema ≠ 1 then ty :: 0 :: rest
    else ty :: hasSchema :: rest
  | bytes => bytes

/-- An XML description is written back with the schema byte that its reader tells apart. -/
theorem TypeInfo.encode_of_decodeXml {info : TypeInfo} (hreads : decodeXml.Reads env bytes info) :
    ∃ again, info.encode = .done (VarLenType.xml.toByte :: again) () ∧
      decodeXml.Reads env again info ∧
        VarLenType.xml.toByte :: again = normalized (VarLenType.xml.toByte :: bytes) := by
  have hread := hreads
  simp only [decodeXml, bind_eq, pure_eq, reads_bind, readU8_reads] at hread
  obtain ⟨_, second, hasSchema, rfl, rfl, hread⟩ := hread
  split_ifs at hread with hone
  · subst hone
    simp only [reads_bind, readBVarchar_reads, readUsVarchar_reads, reads_ret] at hread
    obtain ⟨first, _, dbName, rfl, hdbName, third, _, owner, rfl, howner, fourth, _, collection,
      rfl, hcollection, rfl, rfl⟩ := hread
    refine ⟨_, ?_, hreads, rfl⟩
    simp only [TypeInfo.encode, encodeXml, hdbName, howner, hcollection, putField_ok,
      Written.bind_eq, putU8_eq, Written.done_bind, Written.after_done, List.append_nil]
    rfl
  · obtain ⟨rfl, rfl⟩ := reads_ret.mp hread
    refine ⟨[0], rfl, rfl, ?_⟩
    by_cases hzero : hasSchema = 0
    · subst hzero
      rfl
    · exact (if_pos ⟨rfl, hzero, hone⟩).symm

theorem TypeInfo.normalized_of_ne {ty : UInt8} (hty : ty ≠ VarLenType.xml.toByte)
    (rest : List UInt8) : normalized (ty :: rest) = ty :: rest := by
  cases rest with
  | nil => rfl
  | cons second rest => exact if_neg fun h => hty h.1

/-- A description is written back in bytes that are read as the same description. -/
theorem TypeInfo.encode_of_decode {info : TypeInfo} (hreads : decode.Reads env bytes info) :
    ∃ again, info.encode = .done again () ∧ decode.Reads env again info ∧
      again = normalized bytes := by
  have hread := hreads
  simp only [decode, bind_eq, pure_eq, reads_bind, readU8_reads] at hread
  obtain ⟨_, more, byte, rfl, rfl, hread⟩ := hread
  rw [List.singleton_append] at hreads ⊢
  -- A description other than an XML one comes back in its own bytes.
  have hsame : byte ≠ VarLenType.xml.toByte → info.encode = .done (byte :: more) () →
      ∃ again, info.encode = .done again () ∧ decode.Reads env again info ∧
        again = normalized (byte :: more) :=
    fun hbyte hencode => ⟨byte :: more, hencode, hreads, (normalized_of_ne hbyte more).symm⟩
  cases hfixed : FixedLenType.tryFrom byte with
  | some fixed =>
    rw [hfixed] at hread
    obtain ⟨rfl, rfl⟩ := reads_ret.mp hread
    rw [FixedLenType.tryFrom_eq_some_iff] at hfixed
    refine hsame ?_ (by rw [hfixed]; rfl)
    rw [hfixed]
    cases fixed <;> decide
  | none =>
    rw [hfixed] at hread
    cases hvar : VarLenType.tryFrom byte with
    | none =>
      rw [hvar] at hread
      exact (reads_protocol.mp hread).elim
    | some ty =>
      rw [hvar] at hread
      rw [VarLenType.tryFrom_eq_some_iff] at hvar
      subst hvar
      cases ty with
      | xml =>
        obtain ⟨again, hencode, hagain, hnormal⟩ := encode_of_decodeXml hread
        refine ⟨_, hencode, ?_, hnormal⟩
        exact Reads.bind (readU8_put _) hagain
      | udt => exact hsame (by decide) (encode_of_decodeUdt hread)
      | _ => exact hsame (by decide) (encode_of_decodeVarLen hread)

theorem TypeInfo.precision_of_decodePrecision {kind ty : VarLenType} {len size : ℕ}
    {precision scale : UInt8}
    (hreads : (decodePrecision kind len).Reads env bytes
      (.varLenSizedPrecision ty size precision scale)) :
    ty = kind ∧ precision ≤ 38 ∧ scale ≤ precision := by
  simp only [decodePrecision, bind_eq, pure_eq, reads_bind, readU8_reads] at hreads
  obtain ⟨_, _, first, -, -, _, _, second, -, -, hinfo⟩ := hreads
  split_ifs at hinfo with hinvalid
  · exact (reads_protocol.mp hinfo).elim
  · obtain ⟨-, heq⟩ := reads_ret.mp hinfo
    cases heq
    rw [not_or, UInt8.not_lt, UInt8.not_lt] at hinvalid
    exact ⟨rfl, hinvalid⟩

theorem TypeInfo.precision_of_decodeVarLen {kind ty : VarLenType} {size : ℕ}
    {precision scale : UInt8}
    (hreads : (decodeVarLen kind).Reads env bytes
      (.varLenSizedPrecision ty size precision scale)) :
    (ty = .decimaln ∨ ty = .numericn) ∧ precision ≤ 38 ∧ scale ≤ precision := by
  simp only [decodeVarLen, bind_eq, pure_eq, reads_bind] at hreads
  obtain ⟨_, _, len, -, -, hinfo⟩ := hreads
  cases kind with
  | decimaln =>
    obtain ⟨rfl, hvalid⟩ := precision_of_decodePrecision hinfo
    exact ⟨.inl rfl, hvalid⟩
  | numericn =>
    obtain ⟨rfl, hvalid⟩ := precision_of_decodePrecision hinfo
    exact ⟨.inr rfl, hvalid⟩
  | text | ntext | bigChar | nchar | nvarchar | bigVarChar =>
    simp only [VarLenType.hasCollation, if_true, reads_bind, ret_bind, reads_ret] at hinfo
    obtain ⟨_, _, collation, -, -, -, heq⟩ := hinfo
    cases heq
  | _ =>
    obtain ⟨-, heq⟩ := reads_ret.mp hinfo
    cases heq

/-- Only the decimal types come with a precision, and with a scale of at most that. -/
theorem TypeInfo.precision_of_decode {ty : VarLenType} {size : ℕ} {precision scale : UInt8}
    (hreads : decode.Reads env bytes (.varLenSizedPrecision ty size precision scale)) :
    (ty = .decimaln ∨ ty = .numericn) ∧ precision ≤ 38 ∧ scale ≤ precision := by
  simp only [decode, bind_eq, pure_eq, reads_bind, readU8_reads] at hreads
  obtain ⟨_, more, byte, -, -, hread⟩ := hreads
  cases hfixed : FixedLenType.tryFrom byte with
  | some fixed =>
    rw [hfixed] at hread
    obtain ⟨-, heq⟩ := reads_ret.mp hread
    cases heq
  | none =>
    rw [hfixed] at hread
    cases hvar : VarLenType.tryFrom byte with
    | none =>
      rw [hvar] at hread
      exact (reads_protocol.mp hread).elim
    | some kind =>
      rw [hvar] at hread
      cases kind with
      | xml =>
        simp only [decodeXml, bind_eq, pure_eq, reads_bind, readU8_reads] at hread
        obtain ⟨_, _, hasSchema, -, -, hread⟩ := hread
        split_ifs at hread
        · simp only [reads_bind, reads_ret] at hread
          obtain ⟨_, _, _, -, -, _, _, _, -, -, _, _, _, -, -, -, heq⟩ := hread
          cases heq
        · obtain ⟨-, heq⟩ := reads_ret.mp hread
          cases heq
      | udt =>
        simp only [decodeUdt, bind_eq, pure_eq, reads_bind, reads_ret] at hread
        obtain ⟨_, _, _, -, -, _, _, _, -, -, _, _, _, -, -, _, _, _, -, -, _, _, _, -, -, -,
          heq⟩ := hread
        cases heq
      | _ => exact precision_of_decodeVarLen hread

end Reads

/-- Whatever the decoder of type information accepts, the encoder takes. Decoding
what it writes gives the same description, and the bytes are those that have been
read, up to the schema byte of an XML column. -/
theorem typeInfo_reencoded (env : Context) (bytes rest : List UInt8) (info : TypeInfo)
    (hdecode : TypeInfo.decode.run env bytes = .done info rest) :
    ∃ used again, bytes = used ++ rest ∧ info.encode = .done again () ∧
      TypeInfo.decode.run env again = .done info [] ∧ again = TypeInfo.normalized used := by
  obtain ⟨used, hused, hreads⟩ := reads_of_run hdecode
  obtain ⟨again, hencode, hagain, hnormal⟩ := TypeInfo.encode_of_decode hreads
  exact ⟨used, again, hused, hencode, hagain, hnormal⟩

/-- An XML description whose schema byte is 7, with another byte behind it. -/
theorem typeInfo_reencoded_xml :
    ∃ used again, [0xF1, 7, 9] = used ++ [9] ∧
      (TypeInfo.xml none 0xfffffffffffffffe).encode = .done again () ∧
        TypeInfo.decode.run .new again = .done (.xml none 0xfffffffffffffffe) [] ∧
          again = TypeInfo.normalized used :=
  typeInfo_reencoded .new [0xF1, 7, 9] [9] (.xml none 0xfffffffffffffffe) rfl

end Tiberius
