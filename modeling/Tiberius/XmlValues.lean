import Tiberius.RoundTrip

/-!
XML values on the wire. An XML value goes out as one chunk of UTF-16 bytes with
the terminator behind it, whether or not the chunk is empty; the reader of
chunks takes the length of an empty chunk for the terminator and stops there.
-/

namespace Tiberius

open Reading Reader Program Writing Writer

namespace XmlData

def payload (xml : XmlData) : List UInt8 := putUnits (encodeUtf16 xml.data.toList)

/-- The value goes out, and a reader takes what went out, no byte more or less of
what stands behind it, and has the text back. -/
def ReadsBack (xml : XmlData) (env : Context) (written : Writer Unit) (reader : Reader ColumnData) :
    Prop :=
  ∃ bytes back, written = .done bytes () ∧ back.data = xml.data ∧
    ∀ rest, reader.run env (bytes ++ rest) = .done (.xml (some back)) rest

theorem payload_eq_nil_iff {xml : XmlData} : xml.payload = [] ↔ xml.data = "" := by
  constructor
  · intro hnil
    have hunits : encodeUtf16 xml.data.toList = [] := by
      rw [← unitsLe_putUnits (encodeUtf16 xml.data.toList), show putUnits _ = [] from hnil]
      rfl
    have hstrict : fromUtf16 (encodeUtf16 xml.data.toList) = some xml.data :=
      fromUtf16_eq_some_iff.mpr rfl
    rw [hunits] at hstrict
    exact Option.some.inj hstrict.symm
  · intro hempty
    rw [payload, hempty]
    rfl

/-- The bytes of a value: those that the other writers of chunks put out, with a
terminator behind an empty chunk too. -/
def bytes (xml : XmlData) : List UInt8 :=
  chunkBytes xml.payload ++ if xml.payload.isEmpty then toLe 4 0 else []

theorem encode_of_lt {xml : XmlData} (hsize : xml.payload.length < 2 ^ 32) :
    xml.encode = .done xml.bytes () := by
  have hlength : xml.payload.length = 2 * (encodeUtf16 xml.data.toList).length :=
    putUnits_length _
  have hbytes : xml.bytes = toLe 8 0xfffffffffffffffe ++
      (toLe 4 (UInt32.ofNat ((encodeUtf16 xml.data.toList).length * 2)).toNat ++
        (xml.payload ++ toLe 4 0)) := by
    rw [bytes, chunkBytes, hlength, Nat.mul_comm]
    cases hpayload : xml.payload with
    | nil => rfl
    | cons byte more => simp only [List.isEmpty_cons, Bool.false_eq_true, if_false, List.append_nil]
  rw [encode, hbytes]
  simp only [Written.bind_eq, putU64Le_eq, Written.done_bind]
  rw [if_neg (by omega), if_neg (by omega)]
  rfl

theorem encode_ne_done {xml : XmlData} (hsize : ¬ xml.payload.length < 2 ^ 32)
    {bytes : List UInt8} : xml.encode ≠ .done bytes () := by
  have hlength : xml.payload.length = 2 * (encodeUtf16 xml.data.toList).length :=
    putUnits_length _
  intro hdone
  have hresult := congrArg Written.result hdone
  rw [encode] at hresult
  simp only [Written.bind_eq, putU64Le_eq, Written.done_bind] at hresult
  split_ifs at hresult with hpanic hlong
  · cases hresult
  · cases hresult
  · omega

section

variable {env : Context} {len : ℕ}

theorem decodePlp_above (hlen : ¬ len < 0xffff) {data : List UInt8}
    (hlong : maxPlpSize < data.length) (hsize : data.length < 2 ^ 32) (symbols : List UInt8) :
    ∃ rest, (decodePlp len).run env (chunkBytes data ++ symbols) = .failed plpTooLong rest := by
  have hnat : (UInt32.ofNat data.length).toNat = data.length := by
    rw [UInt32.toNat_ofNat', Nat.mod_eq_of_lt hsize]
  have hunknown : (0xfffffffffffffffe : UInt64) ≠ 0xffffffffffffffff := by decide
  refine ⟨(data ++ if data.isEmpty then [] else toLe 4 0) ++ symbols, ?_⟩
  rw [chunkBytes, List.append_assoc, List.append_assoc]
  apply decodePlp_chunked_above (Nat.not_lt.mp hlen) hunknown (List.forall_mem_nil _)
  · exact Nat.zero_le _
  · rw [hnat, List.flatten_nil, List.length_nil]
    omega

variable [EncodingRs] (schema : Option XmlSchema)

/-- The bytes of a value are read, up to a terminator behind an empty chunk. -/
theorem decode_chunk (hlen : ¬ len < 0xffff) {xml : XmlData}
    (hsize : xml.payload.length ≤ maxPlpSize) :
    (decodeXmlValue len schema).Reads env (chunkBytes xml.payload)
      (.xml (some { data := xml.data, schema := schema })) :=
  (decodeString_reads (by decide) none (decodePlp_long hlen hsize)).bind_last (ret_reads _)

theorem decode_ne_done (hlen : ¬ len < 0xffff) {xml : XmlData}
    (hlong : maxPlpSize < xml.payload.length) (hsize : xml.payload.length < 2 ^ 32)
    {symbols rest : List UInt8} {value : ColumnData} :
    (decodeXmlValue len schema).run env (chunkBytes xml.payload ++ symbols) ≠ .done value rest := by
  obtain ⟨left, hfailed⟩ := @decodePlp_above env len hlen _ hlong hsize symbols
  intro hdone
  rw [decodeXmlValue, Program.bind_eq, Program.run_bind, decodeString, Program.bind_eq,
    Program.run_bind, hfailed] at hdone
  cases hdone

/-- A reader that reads XML values behind a header reads back what is not empty and
not above the ceiling. -/
theorem readsBack_iff (hlen : ¬ len < 0xffff) (xml : XmlData) (header : List UInt8)
    {reader : Reader ColumnData}
    (hreader : ∀ symbols, reader.run env (header ++ symbols) =
      (decodeXmlValue len schema).run env symbols) :
    xml.ReadsBack env (xml.encode.after header) reader ↔
      xml.data ≠ "" ∧ xml.payload.length ≤ maxPlpSize := by
  constructor
  · rintro ⟨bytes, back, hdone, -, hreads⟩
    obtain ⟨first, second, ⟨⟩, rfl, hheader, hencode⟩ :=
      @Written.bind_eq_done _ _ _ _ (Written.put header) (fun _ => xml.encode) _ _ hdone
    obtain ⟨rfl, -⟩ := Written.done_inj.mp hheader
    have hsize : xml.payload.length < 2 ^ 32 := by
      by_contra hover
      exact encode_ne_done hover hencode
    obtain ⟨rfl, -⟩ := Written.done_inj.mp ((encode_of_lt hsize).symm.trans hencode)
    have hread := hreads []
    rw [List.append_nil, hreader, XmlData.bytes] at hread
    have hmax : xml.payload.length ≤ maxPlpSize := by
      by_contra hlong
      exact decode_ne_done schema hlen (Nat.lt_of_not_le hlong) hsize hread
    refine ⟨?_, hmax⟩
    intro hempty
    -- The reader stops in front of the terminator behind the empty chunk.
    rw [(decode_chunk schema hlen hmax).run_append, payload_eq_nil_iff.mpr hempty] at hread
    cases hread
  · rintro ⟨hdata, hmax⟩
    have hsize : xml.payload.length < 2 ^ 32 := by
      unfold maxPlpSize at hmax
      omega
    have hchunk : xml.bytes = chunkBytes xml.payload := by
      rw [XmlData.bytes, if_neg, List.append_nil]
      intro hnil
      exact hdata (payload_eq_nil_iff.mp (List.isEmpty_iff.mp hnil))
    refine ⟨header ++ xml.bytes, { data := xml.data, schema := schema }, ?_, rfl, ?_⟩
    · rw [encode_of_lt hsize]
      rfl
    · intro rest
      rw [List.append_assoc, hreader, hchunk]
      exact (decode_chunk schema hlen hmax).run_append rest

end

end XmlData

/-- An XML value is read back, as a parameter and as the cell of a column, unless it
is empty or above the ceiling of the reader. -/
theorem xml_readsBack_iff [EncodingRs] [StdLib] (env : Context) (xml : XmlData)
    (schema : Option XmlSchema) :
    (xml.ReadsBack env ((ColumnData.xml (some xml)).encode none) decodeTyped ↔
      xml.data ≠ "" ∧ xml.payload.length ≤ maxPlpSize) ∧
    (xml.ReadsBack env ((ColumnData.xml (some xml)).encode (some (.xml schema 0xfffffffffffffffe)))
        (ColumnData.decode (.xml schema 0xfffffffffffffffe)) ↔
      xml.data ≠ "" ∧ xml.payload.length ≤ maxPlpSize) := by
  constructor
  · have hheader : TypeInfo.decode.Reads env [VarLenType.xml.toByte, 0]
        (.xml none 0xfffffffffffffffe) := rfl
    exact XmlData.readsBack_iff none (by decide) xml [VarLenType.xml.toByte, 0]
      (fun symbols => hheader.run_bind _ symbols)
  · exact XmlData.readsBack_iff schema (by decide) xml [] (fun symbols => rfl)

/-- The empty text leaves the four bytes of its terminator to what is read next. -/
theorem xml_empty_left_over :
    (∃ bytes, (@ColumnData.encode .exact .ascii (.xml (some ⟨"", none⟩)) none) = .done bytes () ∧
      (@decodeTyped .ascii).run .new bytes = .done (.xml (some ⟨"", none⟩)) [0, 0, 0, 0]) ∧
    ¬ ∀ (xml : XmlData) (schema : Option XmlSchema),
      xml.ReadsBack .new (@ColumnData.encode .exact .ascii (.xml (some xml)) none)
        (@decodeTyped .ascii) ∧
      xml.ReadsBack .new
        (@ColumnData.encode .exact .ascii (.xml (some xml)) (some (.xml schema 0xfffffffffffffffe)))
        (@ColumnData.decode .ascii (.xml schema 0xfffffffffffffffe)) := by
  refine ⟨⟨_, rfl, rfl⟩, ?_⟩
  intro hreads
  obtain ⟨bytes, back, hdone, -, hrun⟩ := (hreads ⟨"", none⟩ none).1
  obtain ⟨rfl, -⟩ := Written.done_inj.mp hdone
  have hleft := hrun []
  cases hleft

end Tiberius
