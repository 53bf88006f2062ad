import Tiberius.Columns

/-!
The tokens of a server response and their decoders. A token is a type byte
followed by a body; the bodies that declare their length are read whole and
parsed in memory. Decoding a token leaves the context alone, and what receiving
it changes there is a separate step, `Context.receive`.
-/

namespace Tiberius

open Reading Reader

/-- Parsing of a body in memory. -/
abbrev Cursor (α : Type) : Type := StateT (List UInt8) (Except Error) α

namespace Cursor

def take (count : ℕ) : Cursor (List UInt8) := fun bytes =>
  if count ≤ bytes.length then .ok (bytes.take count, bytes.drop count)
  else .error .shortBuffer

def readU8 : Cursor UInt8 := do
  let bytes ← take 1
  pure (UInt8.ofNat (leNat bytes))

def readU16 : Cursor UInt16 := do
  let bytes ← take 2
  pure (getU16Le bytes)

def readU32 : Cursor UInt32 := do
  let bytes ← take 4
  pure (getU32Le bytes)

/-- UTF-16 text of a number of units; `invalid` is the error for bad text. -/
def readUtf16 (invalid : Error) (count : ℕ) : Cursor String := do
  let units ← (List.range count).mapM fun _ => readU16
  match fromUtf16 units with
  | some text => pure text
  | none => throw invalid

def readBVarchar (invalid : Error) : Cursor String := do
  let count ← readU8
  readUtf16 invalid count.toNat

def readUsVarchar (invalid : Error) : Cursor String := do
  let count ← readU16
  readUtf16 invalid count.toNat

/-- Parse a whole body; what the fields do not use is dropped. -/
def parse {α : Type} (cursor : Cursor α) (bytes : List UInt8) : Reader α :=
  ofResult ((StateT.run cursor bytes).map Prod.fst)

end Cursor

/-- The ceiling on the body of a token that declares a 32-bit length. -/
def maxTokenBody : ℕ := 16 * 1024 * 1024

structure DoneStatus where
  more : Bool
  error : Bool
  inexact : Bool
  count : Bool
  attention : Bool
  rpcInBatch : Bool
  srvError : Bool
  deriving DecidableEq, Repr

/-- `BitFlags::from_bits_truncate`: unknown bits are dropped. -/
def DoneStatus.fromBitsTruncate (bits : UInt16) : DoneStatus where
  more := bits.toNat.testBit 0
  error := bits.toNat.testBit 1
  inexact := bits.toNat.testBit 2
  count := bits.toNat.testBit 4
  attention := bits.toNat.testBit 5
  rpcInBatch := bits.toNat.testBit 7
  srvError := bits.toNat.testBit 8

def DoneStatus.empty : DoneStatus := fromBitsTruncate 0

structure TokenDone where
  status : DoneStatus
  curCmd : UInt16
  doneRows : UInt64
  deriving DecidableEq, Repr

namespace TokenDone

def decode : Reader TokenDone := do
  let status ← readU16Le
  let curCmd ← readU16Le
  let width ← context fun context => context.version.doneRowCountBytes
  let doneRows ←
    match width.toNat with
    | 8 => readU64Le
    | 4 => do
      let rows ← readU32Le
      pure rows.toUInt64
    | other =>
      protocol ("DONE token: unexpected row-count width " ++ toString other ++ " bytes")
  pure { status := .fromBitsTruncate status, curCmd := curCmd, doneRows := doneRows }

def isFinal (done : TokenDone) : Bool := done.status = DoneStatus.empty

def isAttention (done : TokenDone) : Bool := done.status.attention

def rows (done : TokenDone) : UInt64 := if done.status.count then done.doneRows else 0

end TokenDone

/-- The body shared by ERROR and INFO tokens. -/
def decodeErrorInfoBody : Reader TokenError := do
  let version ← context Context.version
  let length ← readU16Le
  let data ← readExact length.toNat
  let invalid := Error.protocol "ERROR/INFO token string is not valid UTF-16"
  Cursor.parse (do
    let code ← Cursor.readU32
    let state ← Cursor.readU8
    let cls ← Cursor.readU8
    let message ← Cursor.readUsVarchar invalid
    let server ← Cursor.readBVarchar invalid
    let procedure ← Cursor.readBVarchar invalid
    let line ←
      if FeatureLevel.sqlServer2005.toU32 ≤ version.toU32 then Cursor.readU32
      else do
        let line ← Cursor.readU16
        pure line.toUInt32
    pure
      { code := code
        state := state
        class_ := cls
        message := message
        server := server
        procedure := procedure
        line := line }) data

def TokenError.decode : Reader TokenError := decodeErrorInfoBody

/-- An INFO token: an error body whose code is called its number. -/
structure TokenInfo where
  number : UInt32
  state : UInt8
  class_ : UInt8
  message : String
  server : String
  procedure : String
  line : UInt32
  deriving DecidableEq, Repr

def TokenInfo.decode : Reader TokenInfo := do
  let body ← decodeErrorInfoBody
  pure
    { number := body.code
      state := body.state
      class_ := body.class_
      message := body.message
      server := body.server
      procedure := body.procedure
      line := body.line }

inductive EnvChangeTy where
  | database | language | characterSet | packetSize | unicodeDataSortingLID | unicodeDataSortingCFL
  | sqlCollation | beginTransaction | commitTransaction | rollbackTransaction
  | enlistDTCTransaction | defectTransaction | rtls | promoteTransaction
  | transactionManagerAddress | transactionEnded | resetConnection | userName | routing
  deriving DecidableEq, Repr

namespace EnvChangeTy

def table : List (UInt8 × EnvChangeTy) :=
  [(1, database), (2, language), (3, characterSet), (4, packetSize), (5, unicodeDataSortingLID),
    (6, unicodeDataSortingCFL), (7, sqlCollation), (8, beginTransaction), (9, commitTransaction),
    (10, rollbackTransaction), (11, enlistDTCTransaction), (12, defectTransaction), (13, rtls),
    (15, promoteTransaction), (16, transactionManagerAddress), (17, transactionEnded),
    (18, resetConnection), (19, userName), (20, routing)]

def tryFrom (byte : UInt8) : Option EnvChangeTy := table.lookup byte

end EnvChangeTy

inductive TokenEnvChange where
  | database (old new : String)
  | packetSize (old new : UInt32)
  | sqlCollation (old new : Option Collation)
  | beginTransaction (desc : Vector UInt8 8)
  | commitTransaction
  | rollbackTransaction
  | defectTransaction
  | routing (host : String) (port : UInt16)
  | changeMirror (name : String)
  | ignored (ty : EnvChangeTy)
  deriving DecidableEq, Repr

namespace TokenEnvChange

def parseU32 (text : String) : Cursor UInt32 :=
  match parseUnsigned 32 text.toList with
  | .ok value => pure (UInt32.ofNat value)
  | .error error => throw (.parseInt error)

/-- A collation of an ENVCHANGE token: five bytes, or anything else for none. -/
def readCollation : Cursor (Option Collation) := do
  let len ← Cursor.readU8
  let value ← Cursor.take len.toNat
  if len = 5 then
    pure (some { info := getU32Le (value.take 4), sortId := value.getD 4 0 })
  else pure none

/-- The fields of an ENVCHANGE token behind its type. -/
def parseBody : EnvChangeTy → Cursor TokenEnvChange
  | .database => do
    let new ← Cursor.readBVarchar .utf16
    let old ← Cursor.readBVarchar .utf16
    pure (.database old new)
  | .packetSize => do
    let newValue ← Cursor.readBVarchar .utf16
    let oldValue ← Cursor.readBVarchar .utf16
    let new ← parseU32 newValue
    let old ← parseU32 oldValue
    pure (.packetSize old new)
  | .sqlCollation => do
    let new ← readCollation
    let old ← readCollation
    pure (.sqlCollation old new)
  | .beginTransaction | .enlistDTCTransaction => do
    let len ← Cursor.readU8
    if len ≠ 8 then
      throw (.protocol ("ENVCHANGE transaction descriptor length " ++ toString len ++
        ", expected 8"))
    else
      let desc ← Cursor.take 8
      pure (.beginTransaction (Vector.ofFn fun i => desc.getD i 0))
  | .commitTransaction => pure .commitTransaction
  | .rollbackTransaction => pure .rollbackTransaction
  | .defectTransaction => pure .defectTransaction
  | .routing => do
    let _ ← Cursor.readU16
    let _ ← Cursor.readU8
    let port ← Cursor.readU16
    let host ← Cursor.readUsVarchar .utf16
    pure (.routing host port)
  | .rtls => do
    let mirror ← Cursor.readBVarchar .utf16
    pure (.changeMirror mirror)
  | ty => pure (.ignored ty)

def decode : Reader TokenEnvChange := do
  let len ← readU16Le
  let bytes ← readExact len.toNat
  Cursor.parse (do
    let byte ← Cursor.readU8
    match EnvChangeTy.tryFrom byte with
    | none =>
      throw (.protocol ("invalid envchange type " ++
        String.ofList (Nat.toDigits 16 byte.toNat)))
    | some ty => parseBody ty) bytes

end TokenEnvChange

structure TokenRow where
  data : List ColumnData
  deriving DecidableEq, Repr

structure TokenAltRow where
  id : UInt16
  data : List ColumnData
  deriving DecidableEq, Repr

section Rows

variable [EncodingRs]

/-- The values of a row, one for each type in turn. -/
def decodeValues : List TypeInfo → Reader (List ColumnData)
  | [] => pure []
  | ty :: rest => do
    let value ← ColumnData.decode ty
    let values ← decodeValues rest
    pure (value :: values)

def TokenRow.decode : Reader TokenRow := do
  let lastMeta ← context Context.lastMeta
  match lastMeta with
  | none => protocol "ROW token arrived before any COLMETADATA"
  | some metadata =>
    let data ← decodeValues (metadata.columns.map fun column => column.base.ty)
    pure { data := data }

/-- `RowBitmap::is_null`. -/
def rowBitmapIsNull (bitmap : List UInt8) (i : ℕ) : Bool :=
  (bitmap.getD (i / 8) 0).toNat.testBit (i % 8)

/-- The columns of a packed row from the `i`-th on. -/
def decodePackedValues (bitmap : List UInt8) : ℕ → List MetaDataColumn → Reader (List ColumnData)
  | _, [] => pure []
  | i, column :: rest => do
    let value ←
      if rowBitmapIsNull bitmap i then pure column.base.nullValue
      else ColumnData.decode column.base.ty
    let values ← decodePackedValues bitmap (i + 1) rest
    pure (value :: values)

def TokenRow.decodeNbc : Reader TokenRow := do
  let lastMeta ← context Context.lastMeta
  match lastMeta with
  | none => protocol "NBCROW token arrived before any COLMETADATA"
  | some metadata =>
    let bitmap ← readExact ((metadata.columns.length + 7) / 8)
    let data ← decodePackedValues bitmap 0 metadata.columns
    pure { data := data }

/-- `get_alt_row`: the compute id selects the metadata of the row. -/
def TokenAltRow.decode : Reader TokenAltRow := do
  let id ← readU16Le
  let found ← context fun context => context.altMeta id
  match found with
  | none => protocol ("ALTROW for unknown compute id " ++ toString id)
  | some metadata =>
    let data ← decodeValues (metadata.columns.map fun column => column.base.ty)
    pure { id := id, data := data }

end Rows

structure TokenReturnValue where
  paramOrdinal : UInt16
  paramName : String
  udf : Bool
  metadata : BaseMetaDataColumn
  value : ColumnData
  deriving DecidableEq, Repr

def TokenReturnValue.decode [EncodingRs] : Reader TokenReturnValue := do
  let paramOrdinal ← readU16Le
  let paramName ← readBVarchar
  let status ← readU8
  let udf ←
    match status.toNat with
    | 1 => pure false
    | 2 => pure true
    | _ => protocol "ReturnValue: invalid status"
  let metadata ← BaseMetaDataColumn.decode
  let value ← ColumnData.decode metadata.ty
  pure
    { paramOrdinal := paramOrdinal
      paramName := paramName
      udf := udf
      metadata := metadata
      value := value }

structure TokenOrder where
  columnIndexes : List UInt16
  deriving DecidableEq, Repr

def TokenOrder.decode : Reader TokenOrder := do
  let rawLen ← readU16Le
  if rawLen % 2 ≠ 0 then
    protocol ("ORDER token length " ++ toString rawLen ++ " is not a multiple of 2")
  else
    let columnIndexes ← readU16Le.times (rawLen.toNat / 2)
    pure { columnIndexes := columnIndexes }

structure ColInfo where
  colNum : UInt8
  tableNum : UInt8
  status : UInt8
  colName : Option String
  deriving DecidableEq, Repr

structure TokenColInfo where
  columns : List ColInfo
  deriving DecidableEq, Repr

def statusDifferentName : UInt8 := 0x20

/-- The name of a COLINFO entry within the `room` left in the token, with the
number of bytes it took. -/
def ColInfo.decodeName (status : UInt8) (room : ℕ) : Reader (Option String × ℕ) :=
  if status &&& statusDifferentName = 0 then pure (none, 0)
  else if room < 1 then protocol "COLINFO ColName length byte extends past the token length"
  else do
    let charLen ← readU8
    if room - 1 < charLen.toNat * 2 then
      protocol "COLINFO ColName extends past the token length"
    else
      let units ← readU16Le.times charLen.toNat
      match fromUtf16 units with
      | some text => pure (some text, 1 + charLen.toNat * 2)
      | none => protocol "COLINFO ColName is not valid UTF-16"

/-- The entries in the `room` left of a COLINFO token; each takes at least
three bytes, so `room` entries are more than enough. -/
def TokenColInfo.decodeEntries : ℕ → ℕ → Reader (List ColInfo)
  | 0, _ => pure []
  | fuel + 1, room =>
    if room = 0 then pure []
    else if room < 3 then protocol "COLINFO entry header extends past the token length"
    else do
      let colNum ← readU8
      let tableNum ← readU8
      let status ← readU8
      let name ← ColInfo.decodeName status (room - 3)
      let rest ← decodeEntries fuel (room - 3 - name.2)
      pure ({ colNum := colNum, tableNum := tableNum, status := status, colName := name.1 } :: rest)

def TokenColInfo.decode : Reader TokenColInfo := do
  let length ← readU16Le
  let columns ← decodeEntries length.toNat length.toNat
  pure { columns := columns }

structure TokenTabName where
  tables : List (List String)
  deriving DecidableEq, Repr

namespace TokenTabName

/-- The parts of one table name. -/
def parseParts : ℕ → List UInt8 → Except Error (List String × List UInt8)
  | 0, data => .ok ([], data)
  | count + 1, data =>
    if data.length < 2 then
      .error (.protocol "TABNAME token truncated while reading part length")
    else
      let byteCount := (getU16Le (data.take 2)).toNat * 2
      let rest := data.drop 2
      if rest.length < byteCount then
        .error (.protocol "TABNAME token truncated while reading part name")
      else
        match fromUtf16 (unitsLe (rest.take byteCount)) with
        | none => .error (.protocol "TABNAME token part is not valid UTF-16")
        | some part => do
          let (parts, rest) ← parseParts count (rest.drop byteCount)
          pure (part :: parts, rest)

/-- The table names in a body; each takes at least one byte. -/
def parseTables : ℕ → List UInt8 → Except Error (List (List String))
  | 0, _ => .ok []
  | fuel + 1, data =>
    match data with
    | [] => .ok []
    | numParts :: rest => do
      let (parts, rest) ← parseParts numParts.toNat rest
      let tables ← parseTables fuel rest
      pure (parts :: tables)

def decode : Reader TokenTabName := do
  let len ← readU16Le
  let data ← readBytesInto len.toNat maxPrealloc
  let tables ← ofResult (parseTables data.length data)
  pure { tables := tables }

end TokenTabName

structure TokenLoginAck where
  interface : UInt8
  tdsVersion : FeatureLevel
  progName : String
  version : UInt32
  deriving DecidableEq, Repr

/-- The length of the fields of a LOGINACK in front of its text. -/
def loginAckFixedPrefix : ℕ := 5

def TokenLoginAck.decode : Reader TokenLoginAck := do
  let length ← readU16Le
  if length.toNat < loginAckFixedPrefix then
    let _ ← readExact length.toNat
    protocol "Login ACK: token length shorter than fixed header"
  else
    let interface ← readU8
    let version ← readU32
    match FeatureLevel.tryFrom version with
    | none => protocol "Login ACK: Invalid TDS version"
    | some tdsVersion =>
      let data ← readExact (length.toNat - loginAckFixedPrefix)
      Cursor.parse (do
        let progName ←
          Cursor.readBVarchar (.protocol "Login ACK: ProgName is not valid UTF-16")
        let version ← Cursor.readU32
        pure
          { interface := interface
            tdsVersion := tdsVersion
            progName := progName
            version := version }) data

/-- The acknowledged features; only federated authentication is known, with or
without a nonce. -/
structure TokenFeatureExtAck where
  fedAuthNonces : List (Option (List UInt8))
  deriving DecidableEq, Repr

def feaExtFedauth : UInt8 := 0x02

def feaExtTerminator : UInt8 := 0xFF

/-- A vector of 33-byte elements grows by doubling its capacity and panics when
the doubled capacity would exceed `isize::MAX` bytes. -/
def maxFeatureAcks : ℕ := 2 ^ 57

/-- One acknowledgement, `none` for the terminator. -/
def TokenFeatureExtAck.decodeAck : Reader (Option (Option (List UInt8))) := do
  let featureId ← readU8
  if featureId = feaExtTerminator then pure none
  else if featureId = feaExtFedauth then
    let dataLen ← readU32Le
    if dataLen = 32 then
      let nonce ← readExact 32
      pure (some (some nonce))
    else if dataLen = 0 then pure (some none)
    else protocol ("invalid Feature_Ext_Ack token: invalid data length " ++ toString dataLen)
  else protocol ("unsupported feature " ++ toString featureId)

/-- The acknowledgements up to the terminator, with room for so many. -/
def TokenFeatureExtAck.decodeAcks : ℕ → Reader (List (Option (List UInt8)))
  | 0 => do
    let ack ← decodeAck
    match ack with
    | none => pure []
    | some _ => .fail .panic
  | room + 1 => do
    let ack ← decodeAck
    match ack with
    | none => pure []
    | some nonce =>
      let rest ← decodeAcks room
      pure (nonce :: rest)

def TokenFeatureExtAck.decode : Reader TokenFeatureExtAck := do
  let nonces ← decodeAcks maxFeatureAcks
  pure { fedAuthNonces := nonces }

structure SessionStateValue where
  id : UInt8
  value : List UInt8
  deriving DecidableEq, Repr

structure TokenSessionState where
  seqNo : UInt32
  status : UInt8
  states : List SessionStateValue
  deriving DecidableEq, Repr

namespace TokenSessionState

/-- One entry: an id, a length of one byte or of 0xFF and four, a value. -/
def readState : Cursor SessionStateValue := do
  let id ← Cursor.readU8
  let shortLen ← Cursor.readU8
  let stateLen ←
    if shortLen = 0xFF then do
      let len ← Cursor.readU32
      pure len.toNat
    else pure shortLen.toNat
  let remaining := (← get).length
  if stateLen > remaining then
    throw (.protocol ("SESSIONSTATE entry length " ++ toString stateLen ++ " exceeds the " ++
      toString remaining ++ " bytes remaining in the token"))
  else
    let value ← Cursor.take stateLen
    pure { id := id, value := value }

/-- The entries up to the end of the body; each takes at least two bytes. -/
def readStates : ℕ → Cursor (List SessionStateValue)
  | 0 => pure []
  | fuel + 1 => do
    if (← get).isEmpty then pure []
    else
      let state ← readState
      let rest ← readStates fuel
      pure (state :: rest)

def parse (bytes : List UInt8) : Cursor TokenSessionState := do
  let seqNo ← Cursor.readU32
  let status ← Cursor.readU8
  let states ← readStates bytes.length
  pure { seqNo := seqNo, status := status, states := states }

def decode : Reader TokenSessionState := do
  let len ← readU32Le
  if len.toNat > maxTokenBody then
    protocol ("SESSIONSTATE token length " ++ toString len ++ " exceeds the maximum")
  else
    let bytes ← readExact len.toNat
    if bytes.length < 5 then
      protocol "SESSIONSTATE token too short to contain SeqNo and Status"
    else Cursor.parse (parse bytes) bytes

end TokenSessionState

structure TokenFedAuthInfo where
  stsUrl : Option String
  spn : Option String
  deriving DecidableEq, Repr

namespace TokenFedAuthInfo

def readU32 (body : List UInt8) (offset : ℕ) : Except Error UInt32 :=
  if offset + 4 ≤ body.length then .ok (getU32Le ((body.drop offset).take 4))
  else .error (.protocol "FEDAUTHINFO token truncated while reading a DWORD")

/-- The text an option entry points to. -/
def optionValue (body : List UInt8) (option : ℕ) : Except Error String := do
  let dataLen ← readU32 body (option + 1)
  let dataOffset ← readU32 body (option + 5)
  if body.length < dataOffset.toNat + dataLen.toNat then
    .error (.protocol "FEDAUTHINFO token data offset out of bounds")
  else if dataLen.toNat % 2 ≠ 0 then
    .error (.protocol "FEDAUTHINFO token data is not valid UTF-16")
  else
    match fromUtf16 (unitsLe ((body.drop dataOffset.toNat).take dataLen.toNat)) with
    | some value => .ok value
    | none => .error (.protocol "FEDAUTHINFO token data is not valid UTF-16")

/-- The options from the `i`-th on; the last one of a kind wins. -/
def parseOptions (body : List UInt8) : ℕ → ℕ → TokenFedAuthInfo → Except Error TokenFedAuthInfo
  | 0, _, info => .ok info
  | count + 1, i, info =>
    match body.drop (4 + i * 9) with
    | [] => .error (.protocol "FEDAUTHINFO token truncated while reading an option id")
    | id :: _ => do
      let value ← optionValue body (4 + i * 9)
      let info :=
        if id = 0x01 then { info with stsUrl := some value }
        else if id = 0x02 then { info with spn := some value }
        else info
      parseOptions body count (i + 1) info

def parse (body : List UInt8) : Except Error TokenFedAuthInfo := do
  let count ← readU32 body 0
  parseOptions body count.toNat 0 { stsUrl := none, spn := none }

def decode : Reader TokenFedAuthInfo := do
  let tokenLength ← Reader.readU32Le
  if tokenLength.toNat > maxTokenBody then
    protocol ("FEDAUTHINFO token length " ++ toString tokenLength ++ " exceeds the maximum")
  else
    let body ← readExact tokenLength.toNat
    ofResult (parse body)

end TokenFedAuthInfo

structure TokenSspi where
  bytes : List UInt8
  deriving DecidableEq, Repr

def TokenSspi.decodeAsync : Reader TokenSspi := do
  let len ← readU16Le
  let bytes ← readExact len.toNat
  pure { bytes := bytes }

inductive ReceivedToken where
  | newResultset (metadata : TokenColMetaData)
  | newAltResultset (metadata : TokenAltMetaData)
  | row (row : TokenRow)
  | altRow (row : TokenAltRow)
  | done (done : TokenDone)
  | doneInProc (done : TokenDone)
  | doneProc (done : TokenDone)
  | returnStatus (status : UInt32)
  | returnValue (value : TokenReturnValue)
  | order (order : TokenOrder)
  | colInfo (info : TokenColInfo)
  | tabName (names : TokenTabName)
  | envChange (change : TokenEnvChange)
  | info (info : TokenInfo)
  | loginAck (ack : TokenLoginAck)
  | sspi (sspi : TokenSspi)
  | featureExtAck (ack : TokenFeatureExtAck)
  | sessionState (state : TokenSessionState)
  | fedAuthInfo (info : TokenFedAuthInfo)
  | error (error : TokenError)
  deriving DecidableEq, Repr

inductive TokenType where
  | returnStatus | altMetaData | colMetaData | error | info | order | colInfo | tabName | returnValue
  | loginAck | row | nbcRow | altRow | sspi | sessionState | fedAuthInfo | envChange | done
  | doneProc | doneInProc | featureExtAck
  deriving DecidableEq, Repr

def TokenType.table : List (UInt8 × TokenType) :=
  [(0x79, returnStatus), (0x88, altMetaData), (0x81, colMetaData), (0xAA, error), (0xAB, info),
    (0xA9, order), (0xA5, colInfo), (0xA4, tabName), (0xAC, returnValue), (0xAD, loginAck),
    (0xD1, row), (0xD2, nbcRow), (0xD3, altRow), (0xED, sspi), (0xE4, sessionState),
    (0xEE, fedAuthInfo), (0xE3, envChange), (0xFD, done), (0xFE, doneProc), (0xFF, doneInProc),
    (0xAE, featureExtAck)]

def TokenType.tryFrom (byte : UInt8) : Option TokenType := table.lookup byte

section Receive

variable [EncodingRs]

/-- The body of a token of a given type. -/
def TokenType.decodeBody : TokenType → Reader ReceivedToken
  | returnStatus => do
    let status ← readU32Le
    pure (.returnStatus status)
  | colMetaData => do
    let metadata ← TokenColMetaData.decode
    pure (.newResultset metadata)
  | altMetaData => do
    let metadata ← TokenAltMetaData.decode
    pure (.newAltResultset metadata)
  | row => do
    let row ← TokenRow.decode
    pure (.row row)
  | altRow => do
    let row ← TokenAltRow.decode
    pure (.altRow row)
  | nbcRow => do
    let row ← TokenRow.decodeNbc
    pure (.row row)
  | done => do
    let done ← TokenDone.decode
    pure (.done done)
  | doneProc => do
    let done ← TokenDone.decode
    pure (.doneProc done)
  | doneInProc => do
    let done ← TokenDone.decode
    pure (.doneInProc done)
  | returnValue => do
    let value ← TokenReturnValue.decode
    pure (.returnValue value)
  | error => do
    let error ← TokenError.decode
    pure (.error error)
  | order => do
    let order ← TokenOrder.decode
    pure (.order order)
  | colInfo => do
    let info ← TokenColInfo.decode
    pure (.colInfo info)
  | tabName => do
    let names ← TokenTabName.decode
    pure (.tabName names)
  | envChange => do
    let change ← TokenEnvChange.decode
    pure (.envChange change)
  | info => do
    let info ← TokenInfo.decode
    pure (.info info)
  | loginAck => do
    let ack ← TokenLoginAck.decode
    pure (.loginAck ack)
  | sspi => do
    let sspi ← TokenSspi.decodeAsync
    pure (.sspi sspi)
  | sessionState => do
    let state ← TokenSessionState.decode
    pure (.sessionState state)
  | fedAuthInfo => do
    let info ← TokenFedAuthInfo.decode
    pure (.fedAuthInfo info)
  | featureExtAck => do
    let ack ← TokenFeatureExtAck.decode
    pure (.featureExtAck ack)

/-- One token of the stream: its type byte, then its body. -/
def ReceivedToken.decode : Reader ReceivedToken := do
  let byte ← readU8
  match TokenType.tryFrom byte with
  | none =>
    protocol ("invalid token type " ++ String.ofList (Nat.toDigits 16 byte.toNat))
  | some ty => ty.decodeBody

end Receive

/-- What `get_env_change` records; a packet size is refused unless it lies in
512..=32767. -/
def Context.receiveEnvChange (context : Context) : TokenEnvChange → Except Error Context
  | .packetSize _ new =>
    if 512 ≤ new ∧ new ≤ 32767 then .ok (context.setPacketSize new)
    else .error (.protocol ("server requested an invalid packet size of " ++ toString new))
  | .beginTransaction desc => .ok (context.setTransactionDescriptor desc)
  | .commitTransaction | .rollbackTransaction | .defectTransaction =>
    .ok (context.setTransactionDescriptor (Vector.replicate 8 0))
  | _ => .ok context

/-- What receiving a token records in the context; it may be refused instead. -/
def Context.receive (context : Context) : ReceivedToken → Except Error Context
  | .newResultset metadata => .ok (context.setLastMeta metadata)
  | .newAltResultset metadata => .ok (context.setAltMeta metadata)
  | .envChange change => context.receiveEnvChange change
  | .loginAck ack => .ok (context.setVersion ack.tdsVersion)
  | _ => .ok context

end Tiberius
