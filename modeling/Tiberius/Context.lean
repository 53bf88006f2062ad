import Tiberius.Values
import Tiberius.Reading.Program

/-!
The session context of a connection, and the readers that run in it. Decoding a
token consults the context, above all the metadata of the current result set;
the context only changes between tokens. Every multi-byte field is one read, as
the byte readers of the driver ask the connection for all of its bytes at once.
-/

namespace Tiberius

open Reading

/-- The version of the protocol, in the order of its wire value. -/
inductive FeatureLevel where
  | sqlServerV7
  | sqlServer2000
  | sqlServer2000Sp1
  | sqlServer2005
  | sqlServer2008
  | sqlServer2008R2
  | sqlServerN
  deriving DecidableEq, Repr

namespace FeatureLevel

def all : List FeatureLevel :=
  [sqlServerV7, sqlServer2000, sqlServer2000Sp1, sqlServer2005, sqlServer2008, sqlServer2008R2,
    sqlServerN]

def toU32 : FeatureLevel → UInt32
  | sqlServerV7 => 0x70000000
  | sqlServer2000 => 0x71000000
  | sqlServer2000Sp1 => 0x71000001
  | sqlServer2005 => 0x72090002
  | sqlServer2008 => 0x730A0003
  | sqlServer2008R2 => 0x730B0003
  | sqlServerN => 0x74000004

def tryFrom (value : UInt32) : Option FeatureLevel := all.find? fun level => level.toU32 == value

def doneRowCountBytes (level : FeatureLevel) : UInt8 :=
  if sqlServer2005.toU32 ≤ level.toU32 then 8 else 4

end FeatureLevel

/-- The flags of a column that the driver knows; other bits are dropped. -/
def columnFlagMask : UInt16 := 0xED3F

structure BaseMetaDataColumn where
  flags : UInt16
  ty : TypeInfo
  tableName : Option String
  deriving DecidableEq, Repr

structure MetaDataColumn where
  base : BaseMetaDataColumn
  colName : String
  deriving DecidableEq, Repr

structure TokenColMetaData where
  columns : List MetaDataColumn
  deriving DecidableEq, Repr

structure AltMetaDataColumn where
  op : UInt8
  operand : UInt16
  base : BaseMetaDataColumn
  colName : String
  deriving DecidableEq, Repr

structure TokenAltMetaData where
  id : UInt16
  byColumns : List UInt16
  columns : List AltMetaDataColumn
  deriving DecidableEq, Repr

/-- A column of a result set as a caller sees it. -/
structure Column where
  name : String
  columnType : ColumnType
  deriving DecidableEq, Repr

/-- The columns a result set presents to its reader. -/
def TokenColMetaData.toColumns (metadata : TokenColMetaData) : List Column :=
  metadata.columns.map fun column =>
    { name := column.colName, columnType := .ofTypeInfo column.base.ty }

/-- They stand in the order of the metadata, each with its name and its type. -/
theorem TokenColMetaData.toColumns_getElem? (metadata : TokenColMetaData) (i : ℕ) :
    metadata.toColumns[i]? = metadata.columns[i]?.map fun column =>
      ⟨column.colName, .ofTypeInfo column.base.ty⟩ :=
  List.getElem?_map

theorem TokenColMetaData.toColumns_length (metadata : TokenColMetaData) :
    metadata.toColumns.length = metadata.columns.length :=
  List.length_map _

/-- A span of time in nanoseconds. -/
structure Duration where
  nanos : ℕ
  deriving DecidableEq, Repr

/-- The value `whole.fraction` in a unit, without trailing zeros. -/
def Duration.decimal (nanos digits : ℕ) (unit : String) : String :=
  let fraction := (Nat.toDigits 10 (nanos % 10 ^ digits))
  let padded := List.replicate (digits - fraction.length) '0' ++ fraction
  let trimmed := (padded.reverse.dropWhile (· == '0')).reverse
  let whole := toString (nanos / 10 ^ digits)
  if trimmed.isEmpty then whole ++ unit else whole ++ "." ++ String.ofList trimmed ++ unit

/-- A duration as `{:?}` prints it. -/
def Duration.debug (duration : Duration) : String :=
  if 10 ^ 9 ≤ duration.nanos then decimal duration.nanos 9 "s"
  else if 10 ^ 6 ≤ duration.nanos then decimal duration.nanos 6 "ms"
  else if 10 ^ 3 ≤ duration.nanos then decimal duration.nanos 3 "µs"
  else decimal duration.nanos 0 "ns"

structure Context where
  version : FeatureLevel
  packetSize : UInt32
  packetId : UInt8
  transactionDesc : Vector UInt8 8
  lastMeta : Option TokenColMetaData
  altMetas : List (UInt16 × TokenAltMetaData)
  commandTimeout : Option Duration
  lossyUtf16 : Bool
  lossyCodepage : Bool
  deriving DecidableEq, Repr

namespace Context

def new : Context where
  version := .sqlServerN
  packetSize := 4096
  packetId := 0
  transactionDesc := Vector.replicate 8 0
  lastMeta := none
  altMetas := []
  commandTimeout := none
  lossyUtf16 := false
  lossyCodepage := false

def nextPacketId (context : Context) : UInt8 × Context :=
  (context.packetId, { context with packetId := context.packetId + 1 })

def setLastMeta (context : Context) (metadata : TokenColMetaData) : Context :=
  { context with lastMeta := some metadata }

def setAltMeta (context : Context) (metadata : TokenAltMetaData) : Context :=
  { context with
    altMetas := (metadata.id, metadata) :: context.altMetas.filter fun entry =>
      entry.1 != metadata.id }

def altMeta (context : Context) (id : UInt16) : Option TokenAltMetaData :=
  context.altMetas.lookup id

def setPacketSize (context : Context) (size : UInt32) : Context :=
  { context with packetSize := size }

def setTransactionDescriptor (context : Context) (desc : Vector UInt8 8) : Context :=
  { context with transactionDesc := desc }

def setVersion (context : Context) (version : FeatureLevel) : Context :=
  { context with version := version }

end Context

/-- A decoder: it reads bytes and consults the context. -/
abbrev Reader (α : Type) : Type := Program Fault Context UInt8 α

namespace Reader

open Program

variable {α : Type}

def reject (error : Error) : Reader α := .fail (.error error)

def protocol (message : String) : Reader α := reject (.protocol message)

/-- A value computed from the context. -/
def context (f : Context → α) : Reader α := .ask fun context => .ret (f context)

/-- A result computed in memory: an error is returned from the decoder. -/
def ofResult : Except Error α → Reader α
  | .ok value => .ret value
  | .error error => reject error

def readExact (count : ℕ) : Reader (List UInt8) := .read count .ret

def readU8 : Reader UInt8 := .read 1 fun bytes => .ret (UInt8.ofNat (leNat bytes))

def readU16Le : Reader UInt16 := .read 2 fun bytes => .ret (getU16Le bytes)

def readU32Le : Reader UInt32 := .read 4 fun bytes => .ret (getU32Le bytes)

def readU64Le : Reader UInt64 := .read 8 fun bytes => .ret (getU64Le bytes)

/-- `read_u32`, the one big-endian reader in use. -/
def readU32 : Reader UInt32 := .read 4 fun bytes => .ret (UInt32.ofNat (beNat bytes))

def readI16Le : Reader Int16 := .read 2 fun bytes => .ret (getU16Le bytes).toInt16

def readI32Le : Reader Int32 := .read 4 fun bytes => .ret (getU32Le bytes).toInt32

def readI64Le : Reader Int64 := .read 8 fun bytes => .ret (getU64Le bytes).toInt64

/-- The units of a length-prefixed string, each read on its own. -/
def readVarchar (count : ℕ) : Reader String := do
  let units ← readU16Le.times count
  match fromUtf16 units with
  | some text => pure text
  | none => reject (.io .invalidData "Invalid UTF-16 data.")

def readBVarchar : Reader String := do
  let count ← readU8
  readVarchar count.toNat

def readUsVarchar : Reader String := do
  let count ← readU16Le
  readVarchar count.toNat

/-- The windows of `read_bytes_into`; every turn reads at least one byte, so
`fuel` turns are enough for `fuel` bytes. -/
def readWindows (cap : ℕ) : ℕ → ℕ → Reader (List UInt8)
  | 0, _ => .ret []
  | fuel + 1, remaining =>
    if remaining = 0 then .ret []
    else do
      let window ← readExact (min remaining cap)
      let rest ← readWindows cap fuel (remaining - min remaining cap)
      pure (window ++ rest)

/-- `read_bytes_into`: `len` bytes in windows of at most `cap`. -/
def readBytesInto (len cap : ℕ) : Reader (List UInt8) := readWindows cap len len

end Reader

end Tiberius
