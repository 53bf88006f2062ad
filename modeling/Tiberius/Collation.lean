import Tiberius.Bytes

/-!
Collations of character columns. A collation selects a code page by its locale
id or by its sort id; CP437 and CP850 are decoded by tables of the driver, every
other code page by the `encoding_rs` library, which enters here as a parameter.
-/

namespace Tiberius

/-- The encodings of `encoding_rs` a collation can select. -/
inductive Encoding where
  | windows874
  | windows1250
  | windows1251
  | windows1252
  | windows1253
  | windows1254
  | windows1255
  | windows1256
  | windows1257
  | windows1258
  | utf16Le
  | big5
  | shiftJis
  | eucKr
  | gb18030
  deriving DecidableEq, Repr

/-- The library that converts text, outside of the driver: strict decoding,
decoding with replacement characters, and encoding of representable text. -/
class EncodingRs where
  decodeWithoutReplacement : Encoding → List UInt8 → Option String
  decodeWithReplacement : Encoding → List UInt8 → String
  encodeWithoutReplacement : Encoding → String → Option (List UInt8)

/-- A library that knows ASCII text only, on which all the encodings agree. -/
@[reducible] def EncodingRs.ascii : EncodingRs where
  decodeWithoutReplacement _ bytes :=
    if bytes.all (· < 0x80) then some (String.ofList (bytes.map fun byte => Char.ofNat byte.toNat))
    else none
  decodeWithReplacement _ bytes :=
    String.ofList (bytes.map fun byte =>
      if byte < 0x80 then Char.ofNat byte.toNat else Char.ofNat 0xFFFD)
  encodeWithoutReplacement _ text :=
    if text.toList.all (·.toNat < 0x80) then
      some (text.toList.map fun char => UInt8.ofNat char.toNat)
    else none

structure Collation where
  info : UInt32
  sortId : UInt8
  deriving DecidableEq, Repr

/-- The locale id part of the LCID. -/
def Collation.lcid (collation : Collation) : UInt16 := (collation.info &&& 0xffff).toUInt16

def lcidTable : List (Encoding × List UInt16) :=
  [(.windows1256, [0x0401, 0x0420, 0x0429, 0x0480, 0x048c, 0x0801, 0x0c01, 0x1001, 0x1401, 0x1801,
    0x1c01, 0x2001, 0x2401, 0x2801, 0x2c01, 0x3001, 0x3401, 0x3801, 0x3c01, 0x4001]),
  (.windows1251, [0x0402, 0x0419, 0x0422, 0x0423, 0x0428, 0x042f, 0x043f, 0x0440, 0x0444, 0x0450,
    0x046d, 0x0485, 0x082c, 0x0843, 0x0850, 0x0c1a, 0x1c1a, 0x201a]),
  (.windows1252, [0x0403, 0x0406, 0x0407, 0x0409, 0x040a, 0x040b, 0x040c, 0x040f, 0x0410, 0x0413,
    0x0414, 0x0416, 0x0417, 0x041d, 0x0421, 0x042b, 0x042d, 0x042e, 0x0432, 0x0434, 0x0435,
    0x0436, 0x0437, 0x0438, 0x043b, 0x043e, 0x0441, 0x0452, 0x0456, 0x045d, 0x045e, 0x0462,
    0x0464, 0x0468, 0x046a, 0x046b, 0x046c, 0x046e, 0x046f, 0x0470, 0x0478, 0x047a, 0x047c,
    0x047e, 0x0482, 0x0483, 0x0484, 0x0486, 0x0487, 0x0488, 0x0807, 0x0809, 0x080a, 0x080c,
    0x0810, 0x0813, 0x0814, 0x0816, 0x081d, 0x082e, 0x083b, 0x083c, 0x083e, 0x085d, 0x085f,
    0x086b, 0x0c07, 0x0c09, 0x0c0a, 0x0c0c, 0x0c3b, 0x0c6b, 0x1007, 0x1009, 0x100a, 0x100c,
    0x103b, 0x1407, 0x1409, 0x140a, 0x140c, 0x143b, 0x1809, 0x180a, 0x180c, 0x183b, 0x1c09,
    0x1c0a, 0x1c3b, 0x2009, 0x200a, 0x203b, 0x2409, 0x240a, 0x243b, 0x2809, 0x280a, 0x2c09,
    0x2c0a, 0x3009, 0x300a, 0x3409, 0x340a, 0x380a, 0x3c0a, 0x4009, 0x400a, 0x4409, 0x440a,
    0x4809, 0x480a, 0x4c0a, 0x500a, 0x540a]),
  (.big5, [0x0404, 0x0c04, 0x1404]),
  (.windows1250, [0x0405, 0x040e, 0x0415, 0x0418, 0x041a, 0x041b, 0x041c, 0x0424, 0x0442, 0x081a,
    0x101a, 0x141a, 0x181a]),
  (.windows1253, [0x0408]),
  (.windows1255, [0x040d]),
  (.shiftJis, [0x0411]),
  (.eucKr, [0x0412]),
  (.windows874, [0x041e]),
  (.windows1254, [0x041f, 0x042c, 0x0443]),
  (.windows1257, [0x0425, 0x0426, 0x0427, 0x0827]),
  (.windows1258, [0x042a]),
  (.utf16Le, [0x0439, 0x043a, 0x0445, 0x0446, 0x0447, 0x0448, 0x0449, 0x044a, 0x044b, 0x044c,
    0x044d, 0x044e, 0x044f, 0x0451, 0x0453, 0x0454, 0x0457, 0x045a, 0x045b, 0x0461, 0x0463,
    0x0465, 0x0481, 0x0845]),
  (.gb18030, [0x0804, 0x1004])]

def sortidTable : List (Encoding × List UInt8) :=
  [(.windows1252, [50, 51, 52, 53, 54, 71, 72, 73, 74, 75, 183, 184, 185, 186, 210, 211, 212, 213,
    214, 215, 216, 217]),
  (.windows1250, [80, 81, 82, 83, 84, 85, 86, 87, 88, 89, 90, 91, 92, 93, 94, 95, 96, 97, 98]),
  (.windows1251, [104, 105, 106, 107, 108]),
  (.windows1253, [112, 113, 114, 120, 121, 122, 124]),
  (.windows1254, [128, 129, 130]),
  (.windows1255, [136, 137, 138]),
  (.windows1256, [144, 145, 146]),
  (.windows1257, [152, 153, 154, 155, 156, 157, 158, 159, 160]),
  (.shiftJis, [192, 193, 200]),
  (.eucKr, [194, 195]),
  (.big5, [196, 197, 202, 201]),
  (.gb18030, [198, 199, 203]),
  (.windows874, [204, 205, 206])]

def lcidToEncoding (locale : UInt16) : Option Encoding :=
  (lcidTable.find? fun entry => entry.2.contains locale).map Prod.fst

def sortidToEncoding (sortId : UInt8) : Option Encoding :=
  (sortidTable.find? fun entry => entry.2.contains sortId).map Prod.fst

/-- A number in hexadecimal with its `0x`, padded with zeros to a total width. -/
def hexAlternate (width value : ℕ) : String :=
  let digits := Nat.toDigits 16 value
  "0x" ++ String.ofList (List.replicate (width - 2 - digits.length) '0' ++ digits)

def Collation.encoding (collation : Collation) : Except Error Encoding :=
  let found :=
    if collation.sortId = 0 then lcidToEncoding collation.lcid
    else sortidToEncoding collation.sortId
  match found with
  | some encoding => .ok encoding
  | none =>
    .error (.encoding ("encoding: unspported encoding (LCID: " ++
      hexAlternate 4 collation.lcid.toNat ++ ", sort ID: " ++ toString collation.sortId ++ ")"))

def cp437High : List ℕ :=
  [0xc7, 0xfc, 0xe9, 0xe2, 0xe4, 0xe0, 0xe5, 0xe7, 0xea, 0xeb, 0xe8, 0xef, 0xee, 0xec, 0xc4,
    0xc5, 0xc9, 0xe6, 0xc6, 0xf4, 0xf6, 0xf2, 0xfb, 0xf9, 0xff, 0xd6, 0xdc, 0xa2, 0xa3, 0xa5,
    0x20a7, 0x192, 0xe1, 0xed, 0xf3, 0xfa, 0xf1, 0xd1, 0xaa, 0xba, 0xbf, 0x2310, 0xac, 0xbd,
    0xbc, 0xa1, 0xab, 0xbb, 0x2591, 0x2592, 0x2593, 0x2502, 0x2524, 0x2561, 0x2562, 0x2556,
    0x2555, 0x2563, 0x2551, 0x2557, 0x255d, 0x255c, 0x255b, 0x2510, 0x2514, 0x2534, 0x252c,
    0x251c, 0x2500, 0x253c, 0x255e, 0x255f, 0x255a, 0x2554, 0x2569, 0x2566, 0x2560, 0x2550,
    0x256c, 0x2567, 0x2568, 0x2564, 0x2565, 0x2559, 0x2558, 0x2552, 0x2553, 0x256b, 0x256a,
    0x2518, 0x250c, 0x2588, 0x2584, 0x258c, 0x2590, 0x2580, 0x3b1, 0xdf, 0x393, 0x3c0, 0x3a3,
    0x3c3, 0xb5, 0x3c4, 0x3a6, 0x398, 0x3a9, 0x3b4, 0x221e, 0x3c6, 0x3b5, 0x2229, 0x2261, 0xb1,
    0x2265, 0x2264, 0x2320, 0x2321, 0xf7, 0x2248, 0xb0, 0x2219, 0xb7, 0x221a, 0x207f, 0xb2,
    0x25a0, 0xa0]

def cp850High : List ℕ :=
  [0xc7, 0xfc, 0xe9, 0xe2, 0xe4, 0xe0, 0xe5, 0xe7, 0xea, 0xeb, 0xe8, 0xef, 0xee, 0xec, 0xc4,
    0xc5, 0xc9, 0xe6, 0xc6, 0xf4, 0xf6, 0xf2, 0xfb, 0xf9, 0xff, 0xd6, 0xdc, 0xf8, 0xa3, 0xd8,
    0xd7, 0x192, 0xe1, 0xed, 0xf3, 0xfa, 0xf1, 0xd1, 0xaa, 0xba, 0xbf, 0xae, 0xac, 0xbd, 0xbc,
    0xa1, 0xab, 0xbb, 0x2591, 0x2592, 0x2593, 0x2502, 0x2524, 0xc1, 0xc2, 0xc0, 0xa9, 0x2563,
    0x2551, 0x2557, 0x255d, 0xa2, 0xa5, 0x2510, 0x2514, 0x2534, 0x252c, 0x251c, 0x2500, 0x253c,
    0xe3, 0xc3, 0x255a, 0x2554, 0x2569, 0x2566, 0x2560, 0x2550, 0x256c, 0xa4, 0xf0, 0xd0, 0xca,
    0xcb, 0xc8, 0x131, 0xcd, 0xce, 0xcf, 0x2518, 0x250c, 0x2588, 0x2584, 0xa6, 0xcc, 0x2580,
    0xd3, 0xdf, 0xd4, 0xd2, 0xf5, 0xd5, 0xb5, 0xfe, 0xde, 0xda, 0xdb, 0xd9, 0xfd, 0xdd, 0xaf,
    0xb4, 0xad, 0xb1, 0x2017, 0xbe, 0xb6, 0xa7, 0xf7, 0xb8, 0xb0, 0xa8, 0xb7, 0xb9, 0xb3, 0xb2,
    0x25a0, 0xa0]

inductive CollationCodec where
  | builtIn (encoding : Encoding)
  | cp437
  | cp850
  deriving DecidableEq, Repr

def Collation.codec (collation : Collation) : Except Error CollationCodec :=
  let id := collation.sortId.toNat
  if 30 ≤ id ∧ id ≤ 35 then .ok .cp437
  else if 40 ≤ id ∧ id ≤ 45 ∨ id = 49 ∨ 55 ≤ id ∧ id ≤ 61 then .ok .cp850
  else collation.encoding.map .builtIn

def decodeSingleByte (bytes : List UInt8) (high : List ℕ) : String :=
  String.ofList (bytes.map fun byte =>
    if byte ≤ 0x7f then Char.ofNat byte.toNat else Char.ofNat (high.getD (byte.toNat - 0x80) 0))

def encodeSingleByte (text : String) (high : List ℕ) : Option (List UInt8) :=
  text.toList.mapM fun character =>
    if character.toNat ≤ 0x7f then some (UInt8.ofNat character.toNat)
    else (high.idxOf? character.toNat).map fun position => UInt8.ofNat position + 0x80

section

variable [EncodingRs]

def CollationCodec.decode (bytes : List UInt8) : CollationCodec → Option String
  | builtIn encoding => EncodingRs.decodeWithoutReplacement encoding bytes
  | cp437 => some (decodeSingleByte bytes cp437High)
  | cp850 => some (decodeSingleByte bytes cp850High)

def CollationCodec.decodeLossy (bytes : List UInt8) : CollationCodec → String
  | builtIn encoding => EncodingRs.decodeWithReplacement encoding bytes
  | cp437 => decodeSingleByte bytes cp437High
  | cp850 => decodeSingleByte bytes cp850High

def CollationCodec.encode (text : String) : CollationCodec → Option (List UInt8)
  | builtIn encoding => EncodingRs.encodeWithoutReplacement encoding text
  | cp437 => encodeSingleByte text cp437High
  | cp850 => encodeSingleByte text cp850High

end

end Tiberius
