import Tiberius.Fields
import Tiberius.Writing.Placed
import Tiberius.Writing.TwoPart

/-!
The login message. A fixed part with a table of offsets and lengths stands in
front of the fields; the encoder jumps between the two while it writes, counts
in machine words and stores offsets and lengths in 16 bits. The fields are read
back through the table, the way a server finds them.
-/

namespace Tiberius

open Reading Reader Program Writing

structure FedAuthExt where
  fedAuthEcho : Bool
  fedAuthToken : String
  nonce : Option (Vector UInt8 32)
  deriving DecidableEq, Repr

/-- `LoginMessage`, with its flags as bits. -/
structure LoginMessage where
  tdsVersion : FeatureLevel
  packetSize : UInt32
  clientProgVer : UInt32
  clientPid : UInt32
  connectionId : UInt32
  optionFlags1 : UInt8
  optionFlags2 : UInt8
  integratedSecurity : Option (List UInt8)
  typeFlags : UInt8
  optionFlags3 : UInt8
  clientTimezone : Int32
  clientLcid : UInt32
  hostname : String
  username : String
  password : String
  appName : String
  serverName : String
  dbName : String
  fedAuthExt : Option FedAuthExt
  deriving DecidableEq, Repr

/-- The transform of the bytes of a password. -/
def obfuscate (byte : UInt8) : UInt8 :=
  ((byte <<< 4) &&& (0xf0 : UInt8) ||| (byte >>> 4) &&& (0x0f : UInt8)) ^^^ 0xA5

def deobfuscate (byte : UInt8) : UInt8 :=
  let byte := byte ^^^ 0xA5
  (byte <<< 4) &&& (0xf0 : UInt8) ||| (byte >>> 4) &&& (0x0f : UInt8)

def utf16Bytes (text : String) : ℕ := (encodeUtf16 text.toList).length * 2

/-- The cursor of an encoding, the offset of the next data, and where the entry of
the extension is. -/
structure LoginEncoder where
  cursor : WriteCursor UInt8
  dataOffset : ℕ
  feaExtOffset : ℕ

def writeUnits : List UInt16 → WriteCursor UInt8 → WriteCursor UInt8
  | [], cursor => cursor
  | unit :: units, cursor => writeUnits units (cursor.write 0 (toLe 2 unit.toNat))

namespace LoginMessage

/-- `LoginMessage::new`, on a host of the given name. -/
def new (hostname : String) : LoginMessage where
  tdsVersion := .sqlServerN
  packetSize := 4096
  clientProgVer := 0
  clientPid := 0
  connectionId := 0
  optionFlags1 := 0x60
  optionFlags2 := 0x03
  integratedSecurity := none
  typeFlags := 0
  optionFlags3 := 0x08
  clientTimezone := 0
  clientLcid := 0
  hostname := hostname
  username := ""
  password := ""
  appName := "tiberius"
  serverName := ""
  dbName := ""
  fedAuthExt := none

/-- `encoded_len`: the bytes reserved for the message. -/
def encodedLen (msg : LoginMessage) : ℕ :=
  94 + utf16Bytes msg.hostname + utf16Bytes msg.username + utf16Bytes msg.password +
    utf16Bytes msg.appName + utf16Bytes msg.serverName + utf16Bytes msg.dbName +
    msg.integratedSecurity.elim 0 List.length +
    msg.fedAuthExt.elim 0 fun ext =>
      15 + utf16Bytes ext.fedAuthToken + if ext.nonce.isSome then 32 else 0

def fixedPart (msg : LoginMessage) : List (List UInt8) :=
  [toLe 4 0, toLe 4 msg.tdsVersion.toU32.toNat, toLe 4 msg.packetSize.toNat,
    toLe 4 msg.clientProgVer.toNat, toLe 4 msg.clientPid.toNat, toLe 4 msg.connectionId.toNat,
    [msg.optionFlags1], [msg.optionFlags2], [msg.typeFlags], [msg.optionFlags3],
    toLe 4 msg.clientTimezone.toUInt32.toNat, toLe 4 msg.clientLcid.toNat]

/-- `var_data`: the texts of the table, with empty ones for the entries of the
extension (5), the client id (9) and the SSPI data (10) too. -/
def varData (msg : LoginMessage) : List String :=
  [msg.hostname, msg.username, msg.password, msg.appName, msg.serverName, "", "", "", msg.dbName,
    "", "", "", ""]

def encodeField (msg : LoginMessage) (i : ℕ) (value : String) (enc : LoginEncoder) :
    LoginEncoder :=
  let feaExtOffset := if i = 5 then enc.cursor.pos else enc.feaExtOffset
  let dataOffset := enc.dataOffset
  if i = 9 then
    { cursor := (enc.cursor.write 0 (toLe 4 0)).write 0 (toLe 2 42), dataOffset, feaExtOffset }
  else
    let cursor := enc.cursor.write 0 (toLe 2 (UInt16.ofNat dataOffset).toNat)
    if i = 10 then
      match msg.integratedSecurity with
      | some bytes =>
        let bak := cursor.pos
        let cursor := ((cursor.seek dataOffset).write 0 bytes).seek bak
        { cursor := cursor.write 0 (toLe 2 (UInt16.ofNat bytes.length).toNat)
          dataOffset := dataOffset + bytes.length
          feaExtOffset }
      | none => { cursor := cursor.write 0 (toLe 2 0), dataOffset, feaExtOffset }
    else
      let bak := cursor.pos
      let cursor := writeUnits (encodeUtf16 value.toList) (cursor.seek dataOffset)
      let newPosition := cursor.pos
      let cursor := if i = 2 then cursor.mapRange obfuscate dataOffset newPosition else cursor
      let length := newPosition - dataOffset
      { cursor := (cursor.seek bak).write 0 (toLe 2 (UInt16.ofNat length / 2).toNat)
        dataOffset := dataOffset + length
        feaExtOffset }

def encodeFields (msg : LoginMessage) : ℕ → List String → LoginEncoder → LoginEncoder
  | _, [], enc => enc
  | i, value :: values, enc => encodeFields msg (i + 1) values (msg.encodeField i value enc)

end LoginMessage

def FedAuthExt.options (ext : FedAuthExt) : UInt8 :=
  let options := (0x01 : UInt8) <<< (1 : UInt8)
  if ext.fedAuthEcho then options ||| 1 else options

/-- The feature extension: the entry of the table, the pointer it leads to, and the
feature data. -/
def FedAuthExt.encode (ext : FedAuthExt) (enc : LoginEncoder) : WriteCursor UInt8 :=
  let cursor := (enc.cursor.seek enc.feaExtOffset).write 0
    (toLe 2 (UInt16.ofNat enc.dataOffset).toNat)
  let cursor := cursor.write 0 (toLe 2 4)
  let cursor := cursor.seek enc.dataOffset
  let dataOffset := enc.dataOffset + 4
  let cursor := cursor.write 0 (toLe 4 (UInt32.ofNat dataOffset).toNat)
  let cursor := cursor.write 0 [0x02]
  let token := putUnits (encodeUtf16 ext.fedAuthToken.toList)
  let featureExtLength := 1 + 4 + token.length + if ext.nonce.isSome then 32 else 0
  let cursor := cursor.write 0 (toLe 4 (UInt32.ofNat featureExtLength).toNat)
  let cursor := cursor.write 0 [ext.options]
  let cursor := cursor.write 0 (toLe 4 (UInt32.ofNat token.length).toNat)
  let cursor := cursor.write 0 token
  let cursor := match ext.nonce with
    | some nonce => cursor.write 0 nonce.toList
    | none => cursor
  cursor.write 0 [0xFF]

namespace LoginMessage

def encodeTable (msg : LoginMessage) : LoginEncoder :=
  let cursor : WriteCursor UInt8 :=
    msg.fixedPart.foldl (fun cursor bytes => cursor.write 0 bytes) { bytes := [], pos := 0 }
  let enc := msg.encodeFields 0 msg.varData
    { cursor, dataOffset := cursor.pos + msg.varData.length * 2 * 2 + 6, feaExtOffset := 0 }
  { enc with cursor := enc.cursor.write 0 (toLe 4 0) }

/-- The length in front, and the closing assertion: it holds as long as the buffer
has not outgrown what was reserved for it. -/
def finish (msg : LoginMessage) (cursor : WriteCursor UInt8) : Except Fault (List UInt8) :=
  let cursor := (cursor.seek 0).write 0 (toLe 4 (UInt32.ofNat cursor.bytes.length).toNat)
  if msg.encodedLen < cursor.bytes.length then .error .panic else .ok cursor.bytes

/-- `encode_to_boxed_slice`. -/
def encodeToBoxedSlice (msg : LoginMessage) : Except Fault (List UInt8) :=
  match msg.fedAuthExt with
  | some ext => msg.finish (ext.encode msg.encodeTable)
  | none => msg.finish msg.encodeTable.cursor

end LoginMessage

namespace Login7

def entryPos (i : ℕ) : ℕ := if i < 9 then 36 + 4 * i else 38 + 4 * i

def u16At (pos : ℕ) (buf : List UInt8) : ℕ := leNat ((buf.drop pos).take 2)

def bytesRegion (i : ℕ) (buf : List UInt8) : Region where
  start := u16At (entryPos i) buf
  size := u16At (entryPos i + 2) buf

def textRegion (i : ℕ) (buf : List UInt8) : Region where
  start := u16At (entryPos i) buf
  size := 2 * u16At (entryPos i + 2) buf

def readRegion (region : Region) (buf : List UInt8) : Option (List UInt8) :=
  if region.start + region.size ≤ buf.length then some (region.slice buf) else none

def readText (i : ℕ) (buf : List UInt8) : Option String :=
  (readRegion (textRegion i buf) buf).bind fun bytes => fromUtf16 (unitsLe bytes)

/-- A text whose bytes have been transformed. -/
def readPassword (i : ℕ) (buf : List UInt8) : Option String :=
  (readRegion (textRegion i buf) buf).bind fun bytes =>
    fromUtf16 (unitsLe (bytes.map deobfuscate))

def readBytes (i : ℕ) (buf : List UInt8) : Option (List UInt8) :=
  readRegion (bytesRegion i buf) buf

/-- The pointer that the entry of the extension leads to, if it has one. -/
def extensionPointer (buf : List UInt8) : Option (Option ℕ) :=
  (readBytes 5 buf).map fun bytes => if bytes.length = 4 then some (leNat bytes) else none

def readNonce (remaining : ℕ) : Reader (Option (Vector UInt8 32)) :=
  if remaining = 32 then do
    let bytes ← readExact 32
    pure (some (Vector.ofFn fun i => bytes.getD i 0))
  else if remaining = 0 then pure none
  else protocol "read feature ext fail"

def readFedAuth : Reader FedAuthExt := do
  let feature ← readU8
  if feature = 0x02 then
    let feaExtLen ← readU32Le
    let options ← readU8
    if options >>> 1 = 0x01 then
      let tokenLen ← readU32Le
      let token ← readVarchar (tokenLen.toNat / 2)
      let nonce ← readNonce (feaExtLen.toNat - (5 + 2 * (tokenLen.toNat / 2)))
      let terminator ← readU8
      if terminator = 0xFF then
        pure { fedAuthEcho := options &&& 1 == 1, fedAuthToken := token, nonce := nonce }
      else protocol "unsupported feature ext"
    else protocol "unsupported FedAuthLibrary"
  else protocol "unsupported feature ext"

/-- The extension: none, or what the pointer leads to. -/
def readExtension (buf : List UInt8) : Option (Option FedAuthExt) :=
  match extensionPointer buf with
  | none => none
  | some none => some none
  | some (some pointer) =>
    match readFedAuth.run .new (buf.drop pointer) with
    | .done ext _ => some (some ext)
    | _ => none

/-- The feature data, with the length that they give themselves. -/
def featureRegion (buf : List UInt8) : Region :=
  match extensionPointer buf with
  | some (some pointer) =>
    { start := pointer, size := 6 + leNat ((buf.drop (pointer + 1)).take 4) }
  | _ => { start := 0, size := 0 }

/-- The fixed part, and whatever the table delimits behind it. -/
def regions (buf : List UInt8) : List Region :=
  [{ start := 0, size := 94 }, textRegion 0 buf, textRegion 1 buf, textRegion 2 buf,
    textRegion 3 buf, textRegion 4 buf, textRegion 6 buf, textRegion 7 buf, textRegion 8 buf,
    bytesRegion 10 buf, textRegion 11 buf, textRegion 12 buf, bytesRegion 5 buf,
    featureRegion buf]

end Login7

open Login7

/-- Every entry of the table delimits its own field, no two of them the same bytes,
and the length in front is that of the buffer. -/
structure LoginMessage.Delimited (msg : LoginMessage) (buf : List UInt8) : Prop where
  hostname : readText 0 buf = some msg.hostname
  username : readText 1 buf = some msg.username
  password : readPassword 2 buf = some msg.password
  appName : readText 3 buf = some msg.appName
  serverName : readText 4 buf = some msg.serverName
  cltIntName : readText 6 buf = some ""
  language : readText 7 buf = some ""
  dbName : readText 8 buf = some msg.dbName
  sspi : readBytes 10 buf = some (msg.integratedSecurity.getD [])
  atchDbFile : readText 11 buf = some ""
  changePassword : readText 12 buf = some ""
  extension : readExtension buf = some msg.fedAuthExt
  apart : (regions buf).Pairwise Region.Apart
  length : leNat (buf.take 4) = buf.length

end Tiberius
