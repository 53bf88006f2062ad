import Mathlib.Data.List.GetD
import Tiberius.RoundTrip

/-!
Texts and byte strings in columns with a declared length. The bytes of the value in
the encoding of its column go out behind a length of two bytes, or in one chunk when
the column has no limit of its own. The check of the declared length comes first and
knows nothing of unlimited columns, whose length is given as 0xffff.
-/

namespace Tiberius

open Reading Reader Program Writing Writer

section SingleByte

/-- The byte of a character in a code page of one byte each, by the table of its upper half. -/
def byteOf (high : List ℕ) (character : Char) : Option UInt8 :=
  if character.toNat ≤ 0x7f then some (UInt8.ofNat character.toNat)
  else (high.idxOf? character.toNat).map fun position => UInt8.ofNat position + 0x80

def characterOf (high : List ℕ) (byte : UInt8) : Char :=
  if byte ≤ 0x7f then Char.ofNat byte.toNat else Char.ofNat (high.getD (byte.toNat - 0x80) 0)

/-- The byte of a character stands for it. -/
theorem characterOf_byteOf {high : List ℕ} (hhigh : high.length = 128) {c : Char} {byte : UInt8}
    (hbyte : byteOf high c = some byte) : characterOf high byte = c := by
  unfold byteOf at hbyte
  split_ifs at hbyte with hascii
  · cases hbyte
    have hnat : (UInt8.ofNat c.toNat).toNat = c.toNat := by
      rw [UInt8.toNat_ofNat']
      omega
    have hlow : UInt8.ofNat c.toNat ≤ 0x7f := by
      rw [UInt8.le_iff_toNat_le, hnat]
      exact hascii
    rw [characterOf, if_pos hlow, hnat, Char.ofNat_toNat]
  · obtain ⟨position, hposition, rfl⟩ := Option.map_eq_some_iff.mp hbyte
    obtain ⟨hlt, hvalue, -⟩ := List.idxOf?_eq_some_iff.mp hposition
    have hnat : (UInt8.ofNat position + 0x80).toNat = position + 0x80 := by
      rw [UInt8.toNat_add, UInt8.toNat_ofNat', show (0x80 : UInt8).toNat = 0x80 from rfl]
      omega
    have hup : ¬ UInt8.ofNat position + 0x80 ≤ 0x7f := by
      rw [UInt8.le_iff_toNat_le, hnat, show (0x7f : UInt8).toNat = 0x7f from rfl]
      omega
    rw [characterOf, if_neg hup, hnat, Nat.add_sub_cancel, List.getD_eq_getElem _ _ hlt, hvalue,
      Char.ofNat_toNat]

theorem characters_of_bytes {high : List ℕ} (hhigh : high.length = 128) {chars : List Char}
    {bytes : List UInt8} (hencode : chars.mapM (byteOf high) = some bytes) :
    bytes.map (characterOf high) = chars ∧ bytes.length = chars.length := by
  induction chars generalizing bytes with
  | nil =>
    cases hencode
    exact ⟨rfl, rfl⟩
  | cons c chars ih =>
    rw [List.mapM_cons] at hencode
    obtain ⟨byte, hbyte, hrest⟩ := Option.bind_eq_some_iff.mp hencode
    obtain ⟨rest, hchars, heq⟩ := Option.bind_eq_some_iff.mp hrest
    cases heq
    obtain ⟨hmap, hlength⟩ := ih hchars
    rw [List.map_cons, characterOf_byteOf hhigh hbyte, hmap, List.length_cons, hlength,
      List.length_cons]
    exact ⟨rfl, rfl⟩

/-- A text is read back from its bytes, of which there is one for each character. -/
theorem decodeSingleByte_of_encode {high : List ℕ} (hhigh : high.length = 128) {text : String}
    {bytes : List UInt8} (hencode : encodeSingleByte text high = some bytes) :
    decodeSingleByte bytes high = text ∧ bytes.length = text.toList.length := by
  obtain ⟨hmap, hlength⟩ := characters_of_bytes hhigh hencode
  refine ⟨?_, hlength⟩
  show String.ofList (bytes.map (characterOf high)) = text
  rw [hmap, String.ofList_toList]

end SingleByte

/-- An encoding of the library that decodes what it encodes, with and without
replacement characters, and that takes at least a byte for each character. -/
structure Encoding.Faithful [EncodingRs] (encoding : Encoding) : Prop where
  decodes : ∀ text bytes, EncodingRs.encodeWithoutReplacement encoding text = some bytes →
    EncodingRs.decodeWithoutReplacement encoding bytes = some text
  decodesLossy : ∀ text bytes, EncodingRs.encodeWithoutReplacement encoding text = some bytes →
    EncodingRs.decodeWithReplacement encoding bytes = text
  lengthLe : ∀ text bytes, EncodingRs.encodeWithoutReplacement encoding text = some bytes →
    text.toList.length ≤ bytes.length

section Ascii

theorem ascii_byte {c : Char} (hc : c.toNat < 0x80) :
    UInt8.ofNat c.toNat < 0x80 ∧ Char.ofNat (UInt8.ofNat c.toNat).toNat = c := by
  have hnat : (UInt8.ofNat c.toNat).toNat = c.toNat := by
    rw [UInt8.toNat_ofNat']
    omega
  constructor
  · rw [UInt8.lt_iff_toNat_lt, hnat]
    exact hc
  · rw [hnat, Char.ofNat_toNat]

theorem ascii_bytes {encoding : Encoding} {text : String} {bytes : List UInt8}
    (hencode : @EncodingRs.encodeWithoutReplacement .ascii encoding text = some bytes) :
    (∀ c ∈ text.toList, c.toNat < 0x80) ∧
      bytes = text.toList.map fun c => UInt8.ofNat c.toNat := by
  have hascii : (if text.toList.all (·.toNat < 0x80) = true then
      some (text.toList.map fun c => UInt8.ofNat c.toNat) else none) = some bytes := hencode
  split_ifs at hascii with hall
  cases hascii
  refine ⟨?_, rfl⟩
  intro c hc
  exact of_decide_eq_true (List.all_eq_true.mp hall c hc)

theorem text_of_bytes {text : String} {f : UInt8 → Char}
    (hf : ∀ c ∈ text.toList, f (UInt8.ofNat c.toNat) = c) :
    String.ofList ((text.toList.map fun c => UInt8.ofNat c.toNat).map f) = text := by
  have hmap :
      (text.toList.map fun c => UInt8.ofNat c.toNat).map f = text.toList.map fun c => c := by
    rw [List.map_map]
    exact List.map_congr_left hf
  rw [hmap, List.map_id', String.ofList_toList]

/-- The library that knows ASCII text is faithful on every encoding. -/
theorem EncodingRs.ascii_faithful (encoding : Encoding) : @Encoding.Faithful .ascii encoding := by
  refine @Encoding.Faithful.mk .ascii encoding ?_ ?_ ?_
  all_goals
    intro text bytes hencode
    obtain ⟨hascii, rfl⟩ := ascii_bytes hencode
  · have hall : (text.toList.map fun c => UInt8.ofNat c.toNat).all (· < 0x80) = true := by
      rw [List.all_map, List.all_eq_true]
      intro c hc
      exact decide_eq_true (ascii_byte (hascii c hc)).1
    exact (if_pos hall).trans
      (congrArg some (text_of_bytes fun c hc => (ascii_byte (hascii c hc)).2))
  · exact text_of_bytes fun c hc =>
      (if_pos (ascii_byte (hascii c hc)).1).trans (ascii_byte (hascii c hc)).2
  · exact Nat.le_of_eq (List.length_map _).symm

end Ascii

/-- The code page of a column, when it is one of the library, is faithful. -/
def VarLenContext.Faithful [EncodingRs] (vlc : VarLenContext) : Prop :=
  ∀ collation encoding, vlc.collation = some collation →
    collation.codec = .ok (.builtIn encoding) → encoding.Faithful

section Codepage

variable [EncodingRs] {env : Context}

/-- What the code page of a column makes of a text, and back. -/
theorem CollationCodec.decode_of_encode {codec : CollationCodec} {text : String}
    {bytes : List UInt8} (hcodec : ∀ encoding, codec = .builtIn encoding → encoding.Faithful)
    (hencode : codec.encode text = some bytes) :
    codec.decode bytes = some text ∧ codec.decodeLossy bytes = text ∧
      text.toList.length ≤ bytes.length := by
  cases codec with
  | builtIn encoding =>
    have hfaithful := hcodec encoding rfl
    exact ⟨hfaithful.decodes text bytes hencode, hfaithful.decodesLossy text bytes hencode,
      hfaithful.lengthLe text bytes hencode⟩
  | cp437 =>
    obtain ⟨hdecode, hlength⟩ := decodeSingleByte_of_encode (by rfl) hencode
    exact ⟨congrArg some hdecode, hdecode, Nat.le_of_eq hlength.symm⟩
  | cp850 =>
    obtain ⟨hdecode, hlength⟩ := decodeSingleByte_of_encode (by rfl) hencode
    exact ⟨congrArg some hdecode, hdecode, Nat.le_of_eq hlength.symm⟩

/-- The bytes of a text in the code page of its column, if it has one and knows the text. -/
def codepagePayload (collation : Option Collation) (text : String) : Option (List UInt8) :=
  match collation with
  | none => none
  | some collation =>
    match collation.codec with
    | .error _ => none
    | .ok codec => codec.encode text

theorem codepageBytes_of_payload {collation : Option Collation} {text : String}
    {bytes : List UInt8} (hpayload : codepagePayload collation text = some bytes) :
    codepageBytes collation text = .done [] bytes ∧
      ∃ known codec, collation = some known ∧ known.codec = .ok codec ∧
        codec.encode text = some bytes := by
  unfold codepagePayload at hpayload
  unfold codepageBytes
  cases collation with
  | none => cases hpayload
  | some known =>
    cases hcodec : known.codec with
    | error error =>
      simp only [hcodec, reduceCtorEq] at hpayload
    | ok codec =>
      simp only [hcodec] at hpayload
      simp only [hcodec, hpayload]
      exact ⟨rfl, known, codec, rfl, hcodec, hpayload⟩

theorem codepageBytes_of_none {collation : Option Collation} {text : String}
    (hpayload : codepagePayload collation text = none) :
    ∃ fault, codepageBytes collation text = .fail fault := by
  unfold codepagePayload at hpayload
  unfold codepageBytes
  cases collation with
  | none => exact ⟨_, rfl⟩
  | some known =>
    cases hcodec : known.codec with
    | error error =>
      simp only [hcodec]
      exact ⟨_, rfl⟩
    | ok codec =>
      simp only [hcodec] at hpayload
      simp only [hcodec, hpayload]
      exact ⟨_, rfl⟩

/-- The two decoders of a code page give the text back. -/
theorem decodeString_codepage {ty : VarLenType} (hty : ty = .bigChar ∨ ty = .bigVarChar)
    {len : ℕ} {collation : Collation} {codec : CollationCodec} {wire bytes : List UInt8}
    {text : String} (hcodec : collation.codec = .ok codec)
    (hdecode : codec.decode bytes = some text) (hlossy : codec.decodeLossy bytes = text)
    (hplp : (decodePlp len).Reads env wire (some bytes)) :
    (decodeString ty len (some collation)).Reads env wire (some text) := by
  have htext : (decodeCodepage collation bytes "invalid sequence").Reads env [] text := by
    rw [decodeCodepage, hcodec]
    show (if env.lossyCodepage = true then _ else _ : Reader String).Reads env [] text
    rw [hdecode, hlossy]
    split_ifs <;> exact ret_reads text
  refine hplp.bind_last ?_
  show (if ty = .bigChar ∨ ty = .bigVarChar then _ else _ :
    Reader (Option String)).Reads env [] (some text)
  rw [if_pos hty]
  exact htext.bind_last (ret_reads _)

end Codepage

section Lengths

/-- A character takes at least one unit of UTF-16 and at most four bytes of UTF-8. -/
theorem length_le_units (text : List Char) : text.length ≤ (encodeUtf16 text).length := by
  induction text with
  | nil => exact Nat.le_refl 0
  | cons c text ih =>
    have hpos : 0 < (unitsOf c).length := by
      by_cases hc : c.toNat < 0x10000
      · rw [unitsOf_small hc]
        exact Nat.one_pos
      · rw [unitsOf_large hc]
        exact Nat.two_pos
    rw [encodeUtf16_cons, List.length_append, List.length_cons]
    omega

theorem strLen_le (text : String) : strLen text ≤ 4 * text.toList.length := by
  rw [strLen]
  induction text.toList with
  | nil => exact Nat.le_refl 0
  | cons c chars ih =>
    have hc := c.utf8Size_le_four
    rw [List.foldr_cons, List.length_cons]
    omega

end Lengths

section Columns

/-- The most bytes that a column takes. -/
def VarLenContext.limit (vlc : VarLenContext) : ℕ :=
  if vlc.len = 0xffff then maxPlpSize else vlc.len

variable {env : Context}

/-- What fits the declared length is sent, and read back, in the form that the length selects. -/
theorem putLong_reads {len : ℕ} {payload : List UInt8} (hpayload : payload.length ≤ len)
    (hlen : len ≤ 0xffff) :
    ∃ wire, putLong len payload = .done wire () ∧
      (decodePlp len).Reads env wire (some payload) := by
  by_cases hshort : len < 0xffff
  · refine ⟨_, ?_, decodePlp_short hshort (by omega)⟩
    rw [putLong, if_pos hshort]
    rfl
  · refine ⟨_, ?_, decodePlp_long hshort (by unfold maxPlpSize; omega)⟩
    rw [putLong, if_neg hshort, putChunk_eq]

theorem putUnicode_fits {vlc : VarLenContext} {text : String}
    (hfits : (putUnits (encodeUtf16 text.toList)).length ≤ vlc.len)
    (htext : strLen text < 0xffffffff) :
    putUnicode vlc text = putLong vlc.len (putUnits (encodeUtf16 text.toList)) := by
  rw [putUnicode, if_neg (Nat.not_lt.mpr hfits)]
  by_cases hshort : vlc.len < 0xffff
  · rw [if_pos hshort]
  · rw [if_neg hshort, assertStr, if_pos htext, putLong, if_neg hshort, Written.bind_eq,
      Written.pure_eq, Written.done_bind, Written.after_nil]

variable [EncodingRs]

/-- The bytes of a text or of a byte string in the encoding of its column. -/
def ColumnData.payload (vlc : VarLenContext) : ColumnData → Option (List UInt8)
  | string (some text) =>
    match vlc.type with
    | .bigChar | .bigVarChar => codepagePayload vlc.collation text
    | .nchar | .nvarchar => some (putUnits (encodeUtf16 text.toList))
    | _ => none
  | binary (some bytes) =>
    match vlc.type with
    | .bigBinary | .bigVarBin => some bytes
    | _ => none
  | _ => none

theorem putCodepage_none {vlc : VarLenContext} {text : String}
    (hpayload : codepagePayload vlc.collation text = none) :
    ∃ fault, putCodepage vlc text = .fail fault := by
  obtain ⟨fault, hfail⟩ := codepageBytes_of_none hpayload
  rw [putCodepage, hfail]
  exact ⟨fault, rfl⟩

theorem putCodepage_long {vlc : VarLenContext} {text : String} {payload : List UInt8}
    (hpayload : codepagePayload vlc.collation text = some payload)
    (hlong : vlc.len < payload.length) : ∃ fault, putCodepage vlc text = .fail fault := by
  rw [putCodepage, (codepageBytes_of_payload hpayload).1, Written.bind_eq, Written.done_bind,
    if_pos hlong]
  exact ⟨_, rfl⟩

theorem putCodepage_fits {vlc : VarLenContext} {text : String} {payload : List UInt8}
    (hpayload : codepagePayload vlc.collation text = some payload)
    (hfits : payload.length ≤ vlc.len) (htext : strLen text < 0xffffffff) :
    putCodepage vlc text = putLong vlc.len payload := by
  rw [putCodepage, (codepageBytes_of_payload hpayload).1, Written.bind_eq, Written.done_bind,
    Written.after_nil, if_neg (Nat.not_lt.mpr hfits)]
  by_cases hshort : vlc.len < 0xffff
  · rw [if_pos hshort]
  · rw [if_neg hshort, if_pos htext, putLong, if_neg hshort]

variable [StdLib]

/-- What a column does with a value: one that has no bytes in its encoding, or more
of them than the declared length, is refused before the first byte. -/
structure Stores (env : Context) (vlc : VarLenContext) (data : ColumnData) : Prop where
  unknown : data.payload vlc = none → ∃ fault, data.encodeVarLen vlc = .fail fault
  long : ∀ payload, data.payload vlc = some payload → vlc.len < payload.length →
    ∃ fault, data.encodeVarLen vlc = .fail fault
  sends : ∀ payload, data.payload vlc = some payload → payload.length ≤ vlc.len →
    data.encodeVarLen vlc = putLong vlc.len payload
  reads : ∀ payload wire, data.payload vlc = some payload →
    (decodePlp vlc.len).Reads env wire (some payload) → (decodeVarLen vlc).Reads env wire data

namespace Stores

variable {len : ℕ} {collation : Option Collation}

/-- A value without bytes in the encoding of the column is refused. -/
theorem of_none {vlc : VarLenContext} {data : ColumnData} (hpayload : data.payload vlc = none)
    (hencode : ∃ fault, data.encodeVarLen vlc = .fail fault) : Stores env vlc data where
  unknown _ := hencode
  long payload hsome := by
    rw [hpayload] at hsome
    cases hsome
  sends payload hsome := by
    rw [hpayload] at hsome
    cases hsome
  reads payload wire hsome := by
    rw [hpayload] at hsome
    cases hsome

theorem of_some {vlc : VarLenContext} {data : ColumnData} {payload : List UInt8}
    (hpayload : data.payload vlc = some payload)
    (hlong : vlc.len < payload.length → ∃ fault, data.encodeVarLen vlc = .fail fault)
    (hsends : payload.length ≤ vlc.len → data.encodeVarLen vlc = putLong vlc.len payload)
    (hreads : ∀ wire, (decodePlp vlc.len).Reads env wire (some payload) →
      (decodeVarLen vlc).Reads env wire data) : Stores env vlc data where
  unknown hnone := by
    rw [hpayload] at hnone
    cases hnone
  long other hsome := by
    cases hpayload.symm.trans hsome
    exact hlong
  sends other hsome := by
    cases hpayload.symm.trans hsome
    exact hsends
  reads other wire hsome := by
    cases hpayload.symm.trans hsome
    exact hreads wire

theorem codepage {type : VarLenType} (htype : type = .bigChar ∨ type = .bigVarChar)
    (hlen : len ≤ 0xffff) (hfaithful : VarLenContext.Faithful ⟨type, len, collation⟩)
    (text : String) : Stores env ⟨type, len, collation⟩ (.string (some text)) := by
  have hpayload : (ColumnData.string (some text)).payload ⟨type, len, collation⟩ =
      codepagePayload collation text := by
    rcases htype with rfl | rfl <;> rfl
  have hencode : (ColumnData.string (some text)).encodeVarLen ⟨type, len, collation⟩ =
      putCodepage ⟨type, len, collation⟩ text := by
    rcases htype with rfl | rfl <;> rfl
  have hdecode : decodeVarLen ⟨type, len, collation⟩ = (do
      let text ← decodeString type len collation
      pure (.string text)) := by
    rcases htype with rfl | rfl <;> rfl
  cases hbytes : codepagePayload collation text with
  | none => exact of_none (hpayload.trans hbytes) (hencode ▸ putCodepage_none hbytes)
  | some payload =>
    obtain ⟨-, known, codec, rfl, hcodec, hknown⟩ := codepageBytes_of_payload hbytes
    obtain ⟨hstrict, hlossy, hlength⟩ := CollationCodec.decode_of_encode
      (fun encoding heq => hfaithful known encoding rfl (by rw [hcodec, heq])) hknown
    refine of_some (hpayload.trans hbytes) (fun hlong => ?_) (fun hfits => ?_)
      (fun wire hplp => ?_)
    · rw [hencode]
      exact putCodepage_long hbytes hlong
    · have htext := strLen_le text
      rw [hencode]
      exact putCodepage_fits hbytes hfits (by simp only at hfits; omega)
    · rw [hdecode]
      exact (decodeString_codepage htype hcodec hstrict hlossy hplp).bind_last (ret_reads _)

theorem unicode {type : VarLenType} (htype : type = .nchar ∨ type = .nvarchar)
    (hlen : len ≤ 0xffff) (text : String) :
    Stores env ⟨type, len, collation⟩ (.string (some text)) := by
  have hpayload : (ColumnData.string (some text)).payload ⟨type, len, collation⟩ =
      some (putUnits (encodeUtf16 text.toList)) := by
    rcases htype with rfl | rfl <;> rfl
  have hencode : (ColumnData.string (some text)).encodeVarLen ⟨type, len, collation⟩ =
      putUnicode ⟨type, len, collation⟩ text := by
    rcases htype with rfl | rfl <;> rfl
  have hdecode : decodeVarLen ⟨type, len, collation⟩ = (do
      let text ← decodeString type len collation
      pure (.string text)) := by
    rcases htype with rfl | rfl <;> rfl
  have hwide : ¬ (type = .bigChar ∨ type = .bigVarChar) := by
    rcases htype with rfl | rfl <;> decide
  refine of_some hpayload (fun hlong => ?_) (fun hfits => ?_) (fun wire hplp => ?_)
  · rw [hencode, putUnicode, if_pos hlong]
    exact ⟨_, rfl⟩
  · have htext := strLen_le text
    have hchars := length_le_units text.toList
    have hunits := putUnits_length (encodeUtf16 text.toList)
    rw [hencode]
    exact putUnicode_fits hfits (by simp only at hfits; omega)
  · rw [hdecode]
    exact (decodeString_reads hwide collation hplp).bind_last (ret_reads _)

theorem binary {type : VarLenType} (htype : type = .bigBinary ∨ type = .bigVarBin)
    (bytes : List UInt8) : Stores env ⟨type, len, collation⟩ (.binary (some bytes)) := by
  have hpayload : (ColumnData.binary (some bytes)).payload ⟨type, len, collation⟩ = some bytes := by
    rcases htype with rfl | rfl <;> rfl
  have hencode : (ColumnData.binary (some bytes)).encodeVarLen ⟨type, len, collation⟩ =
      putBinary ⟨type, len, collation⟩ bytes := by
    rcases htype with rfl | rfl <;> rfl
  have hdecode : decodeVarLen ⟨type, len, collation⟩ = decodeBinary len := by
    rcases htype with rfl | rfl <;> rfl
  refine of_some hpayload (fun hlong => ?_) (fun hfits => ?_) (fun wire hplp => ?_)
  · rw [hencode, putBinary, if_pos hlong]
    exact ⟨_, rfl⟩
  · rw [hencode, putBinary, if_neg (Nat.not_lt.mpr hfits)]
  · rw [hdecode]
    exact hplp.bind_last (ret_reads _)

end Stores

end Columns

/-- Texts and byte strings that are not NULL. -/
inductive ColumnData.IsLong : ColumnData → Prop
  | string (text : String) : IsLong (string (some text))
  | binary (bytes : List UInt8) : IsLong (binary (some bytes))

/-- The types of texts and byte strings with a declared length. -/
inductive VarLenType.IsLong : VarLenType → Prop
  | bigChar : IsLong bigChar
  | bigVarChar : IsLong bigVarChar
  | nchar : IsLong nchar
  | nvarchar : IsLong nvarchar
  | bigBinary : IsLong bigBinary
  | bigVarBin : IsLong bigVarBin

section Held

variable [StdLib] [EncodingRs] {env : Context} {vlc : VarLenContext} {data : ColumnData}

theorem stores_long (hdata : data.IsLong) (htype : vlc.type.IsLong) (hlen : vlc.len ≤ 0xffff)
    (hfaithful : vlc.Faithful) : Stores env vlc data := by
  obtain ⟨type, len, collation⟩ := vlc
  cases hdata with
  | string text =>
    cases htype
    case bigChar => exact .codepage (.inl rfl) hlen hfaithful text
    case bigVarChar => exact .codepage (.inr rfl) hlen hfaithful text
    case nchar => exact .unicode (.inl rfl) hlen text
    case nvarchar => exact .unicode (.inr rfl) hlen text
    all_goals exact .of_none rfl ⟨_, rfl⟩
  | binary bytes =>
    cases htype
    case bigBinary => exact .binary (.inl rfl) bytes
    case bigVarBin => exact .binary (.inr rfl) bytes
    all_goals exact .of_none rfl ⟨_, rfl⟩

/-- The value is taken exactly when its bytes fit the column, it is read back from
what is written, and nothing is written of a value that is not taken. -/
structure HeldBy (env : Context) (vlc : VarLenContext) (data : ColumnData) : Prop where
  accepted : (∃ bytes, data.encode (some (.varLenSized vlc)) = .done bytes ()) ↔
    ∃ payload, data.payload vlc = some payload ∧ payload.length ≤ vlc.limit
  unchanged : ∀ fault, (data.encode (some (.varLenSized vlc))).result = .error fault →
    (data.encode (some (.varLenSized vlc))).output = []
  readBack : ∀ bytes, data.encode (some (.varLenSized vlc)) = .done bytes () →
    (ColumnData.decode (.varLenSized vlc)).run env bytes = .done data []

namespace Stores

/-- The encoder takes what fits the declared length and no more. -/
theorem accepts_iff (hstores : Stores env vlc data) (hlen : vlc.len ≤ 0xffff) :
    (∃ bytes, data.encode (some (.varLenSized vlc)) = .done bytes ()) ↔
      ∃ payload, data.payload vlc = some payload ∧ payload.length ≤ vlc.len := by
  constructor
  · rintro ⟨bytes, hdone⟩
    cases hpayload : data.payload vlc with
    | none =>
      obtain ⟨fault, hfail⟩ := hstores.unknown hpayload
      exact absurd (hfail.symm.trans hdone) Written.fail_ne_done
    | some payload =>
      refine ⟨payload, rfl, ?_⟩
      by_contra hlong
      obtain ⟨fault, hfail⟩ := hstores.long payload hpayload (Nat.lt_of_not_le hlong)
      exact absurd (hfail.symm.trans hdone) Written.fail_ne_done
  · rintro ⟨payload, hpayload, hfits⟩
    obtain ⟨wire, hdone, -⟩ := @putLong_reads .new _ _ hfits hlen
    exact ⟨wire, (hstores.sends payload hpayload hfits).trans hdone⟩

theorem unchanged (hstores : Stores env vlc data) (hlen : vlc.len ≤ 0xffff) (fault : Fault)
    (hfault : (data.encode (some (.varLenSized vlc))).result = .error fault) :
    (data.encode (some (.varLenSized vlc))).output = [] := by
  have hrefused : ∀ fault, data.encodeVarLen vlc = .fail fault →
      (data.encode (some (.varLenSized vlc))).output = [] :=
    fun _ hfail => congrArg Written.output hfail
  cases hpayload : data.payload vlc with
  | none =>
    obtain ⟨other, hfail⟩ := hstores.unknown hpayload
    exact hrefused other hfail
  | some payload =>
    by_cases hlong : vlc.len < payload.length
    · obtain ⟨other, hfail⟩ := hstores.long payload hpayload hlong
      exact hrefused other hfail
    · obtain ⟨bytes, hdone⟩ :=
        (hstores.accepts_iff hlen).mpr ⟨payload, hpayload, Nat.le_of_not_lt hlong⟩
      rw [hdone] at hfault
      cases hfault

theorem readBack (hstores : Stores env vlc data) (hlen : vlc.len ≤ 0xffff) (bytes : List UInt8)
    (hdone : data.encode (some (.varLenSized vlc)) = .done bytes ()) :
    (ColumnData.decode (.varLenSized vlc)).run env bytes = .done data [] := by
  obtain ⟨payload, hpayload, hfits⟩ := (hstores.accepts_iff hlen).mp ⟨bytes, hdone⟩
  obtain ⟨wire, hwire, hplp⟩ := @putLong_reads env _ _ hfits hlen
  obtain ⟨rfl, -⟩ := Written.done_inj.mp
    (hdone.symm.trans ((hstores.sends payload hpayload hfits).trans hwire))
  exact hstores.reads payload _ hpayload hplp

end Stores

/-- A column holds its values except for the long ones of a column without a limit. -/
theorem heldBy_iff (env : Context) (vlc : VarLenContext) (data : ColumnData)
    (hdata : data.IsLong) (htype : vlc.type.IsLong) (hlen : vlc.len ≤ 0xffff)
    (hfaithful : vlc.Faithful) :
    HeldBy env vlc data ↔
      ¬ (vlc.len = 0xffff ∧ ∃ payload, data.payload vlc = some payload ∧
        0xffff < payload.length ∧ payload.length ≤ maxPlpSize) := by
  have hstores : Stores env vlc data := stores_long hdata htype hlen hfaithful
  have haccepts := hstores.accepts_iff hlen
  have hlimit : vlc.len ≤ vlc.limit := by
    unfold VarLenContext.limit maxPlpSize
    split_ifs <;> omega
  constructor
  · rintro hheld ⟨hmax, payload, hpayload, hlong, hfits⟩
    have hwithin : payload.length ≤ vlc.limit := by
      rw [VarLenContext.limit, if_pos hmax]
      exact hfits
    obtain ⟨bytes, hdone⟩ := hheld.accepted.mpr ⟨payload, hpayload, hwithin⟩
    obtain ⟨other, hother, hshort⟩ := haccepts.mp ⟨bytes, hdone⟩
    cases hpayload.symm.trans hother
    omega
  · intro hshort
    refine ⟨haccepts.trans ⟨?_, ?_⟩, hstores.unchanged hlen, hstores.readBack hlen⟩
    · rintro ⟨payload, hpayload, hfits⟩
      exact ⟨payload, hpayload, Nat.le_trans hfits hlimit⟩
    · rintro ⟨payload, hpayload, hfits⟩
      refine ⟨payload, hpayload, ?_⟩
      by_cases hmax : vlc.len = 0xffff
      · rw [VarLenContext.limit, if_pos hmax] at hfits
        by_contra hlong
        exact hshort ⟨hmax, payload, hpayload, by omega, hfits⟩
      · rw [VarLenContext.limit, if_neg hmax] at hfits
        exact hfits

end Held

theorem heldBy_iff_latin :
    @HeldBy .exact .ascii .new
        { type := .bigVarChar, len := 10, collation := some { info := 0x0409, sortId := 0 } }
        (.string (some "Ende")) ↔
      ¬ ((10 : ℕ) = 0xffff ∧ ∃ payload, @ColumnData.payload .ascii
        { type := .bigVarChar, len := 10, collation := some { info := 0x0409, sortId := 0 } }
          (.string (some "Ende")) = some payload ∧
        0xffff < payload.length ∧ payload.length ≤ maxPlpSize) :=
  @heldBy_iff .exact .ascii .new _ _ (.string "Ende") .bigVarChar (by decide)
    (fun _ encoding _ _ => EncodingRs.ascii_faithful encoding)

/-- A column without a limit refuses a byte string of 65536 bytes. -/
theorem heldBy_fails_long :
    ¬ ∀ (env : Context) (vlc : VarLenContext) (data : ColumnData), data.IsLong →
      vlc.type.IsLong → vlc.len ≤ 0xffff → @VarLenContext.Faithful .ascii vlc →
        @HeldBy .exact .ascii env vlc data := by
  intro hheld
  have hmax := hheld .new { type := .bigVarBin, len := 0xffff, collation := none }
    (.binary (some (List.replicate 0x10000 0))) (.binary _) .bigVarBin (Nat.le_refl _)
    (fun _ _ hnone => by cases hnone)
  have hlength : (List.replicate 0x10000 (0 : UInt8)).length = 0x10000 := List.length_replicate
  obtain ⟨bytes, hdone⟩ := (@HeldBy.accepted .exact .ascii _ _ _ hmax).mpr
    ⟨List.replicate 0x10000 0, rfl, by rw [hlength]; decide⟩
  have hrefused : putBinary { type := .bigVarBin, len := 0xffff, collation := none }
      (List.replicate 0x10000 0) = .done bytes () := hdone
  rw [putBinary, hlength, if_pos (by decide)] at hrefused
  exact absurd hrefused Written.fail_ne_done

end Tiberius
