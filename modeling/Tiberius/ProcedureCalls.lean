import Tiberius.NumericPrecision
import Tiberius.Requests
import Tiberius.SqlIdentifier
import Tiberius.TypeInfoTvp

/-!
What a client asks for, as requests. A query with parameters is a call of the procedure
that executes SQL, with the text of the query and the declaration of its parameters in
front of their values; a command is a call of a procedure by its name. The parameters
of a call are encoded one behind the other, without a count.
-/

namespace Tiberius

open Machine Writing Writer

inductive RpcStatus where
  | byRefValue | defaultValue | encrypted
  deriving DecidableEq, Repr

def RpcStatus.toByte : RpcStatus → UInt8
  | byRefValue => 1
  | defaultValue => 2
  | encrypted => 8

inductive RpcValue where
  | scalar (value : ColumnData)
  | table (value : TypeInfoTvp)

structure RpcParam where
  name : String
  flags : UInt8
  value : RpcValue

section Encoding

variable [StdLib] [EncodingRs]

def RpcParam.encode (param : RpcParam) : Writer Unit := do
  putField (encodeBVarchar param.name)
  putU8 param.flags
  match param.value with
  | .scalar value => value.encode none
  | .table value => value.encode

/-- The parameters of a call; none where an encoder panics. -/
def encodeParams (params : List RpcParam) : Option (Except Error (List UInt8)) :=
  let written := Written.all (params.map RpcParam.encode)
  match written.result with
  | .ok () => some (.ok written.output)
  | .error (.error error) => some (.error error)
  | .error .panic => none

end Encoding

/-- `Client::rpc_params`. -/
def rpcParams (query : String) : List RpcParam :=
  [{ name := "stmt", flags := 0, value := .scalar (.string (some query)) },
    { name := "params", flags := 0, value := .scalar (.i32 (some 0)) }]

/-- The name of a parameter by its index. -/
def placeholder (index : ℕ) : String := "@P" ++ toString (index + 1)

/-- The declaration of the parameters of a query. -/
def paramStr (params : List ColumnData) : String :=
  String.join (params.mapIdx fun i param =>
    (if 0 < i then "," else "") ++ placeholder i ++ " " ++ param.typeName)

/-- The parameters that `rpc_perform_query` sends: the values of the query behind what
it is handed, and their declaration in the place of the first one named for it. -/
def performParams (rpcParams : List RpcParam) (params : List ColumnData) : List RpcParam :=
  let rpcParams := rpcParams ++ params.mapIdx fun i param =>
    { name := placeholder i, flags := 0, value := .scalar param }
  rpcParams.modify (rpcParams.findIdx fun param => param.name == "params") fun param =>
    { param with value := .scalar (.string (some (paramStr params))) }

inductive CommandParamData where
  | scalar (value : ColumnData)
  | table (rows : List (List ColumnData)) (dbType : String)

structure CommandParam where
  name : String
  out : Bool
  data : CommandParamData

structure Command where
  name : String
  params : List CommandParam

namespace Command

def new (procName : String) : Command where
  name := procName
  params := []

def bind (command : Command) (param : CommandParam) : Command :=
  { command with params := command.params ++ [param] }

def bindParam (command : Command) (name : String) (data : ColumnData) : Command :=
  command.bind { name := name, out := false, data := .scalar data }

def bindOutParam (command : Command) (name : String) (data : ColumnData) : Command :=
  command.bind { name := name, out := true, data := .scalar data }

def bindTable (command : Command) (name dbType : String) (rows : List (List ColumnData)) :
    Command :=
  command.bind { name := name, out := false, data := .table rows dbType }

/-- The statement that asks for the columns of a type. -/
def metadataQuery (dbType : String) : String :=
  "DECLARE @P AS " ++ dbType ++ ";SELECT TOP 0 * FROM @P"

section

variable [UnicodeTables] (build : Build)
  (queryRunForMetadata : String → Except Fault (Option (List MetaDataColumn)))

def rpcParam (param : CommandParam) : Except Fault RpcParam := do
  let value ← match param.data with
    | .scalar value => pure (RpcValue.scalar value)
    | .table rows dbType => do
      validateDbTypeIdentifier build dbType
      let colsMetadata ← queryRunForMetadata (metadataQuery dbType)
      pure (RpcValue.table (.resolved dbType rows colsMetadata))
  pure
    { name := param.name
      flags := if param.out then RpcStatus.byRefValue.toByte else 0
      value := value }

/-- `Command::build_rpc_params`, with what the server answers for the columns of a type. -/
def buildRpcParams (params : List CommandParam) : Except Fault (List RpcParam) :=
  params.mapM (rpcParam build queryRunForMetadata)

end

end Command

/-- A request of a client as its caller makes it. -/
inductive Call where
  | simpleQuery (text : String)
  | query (text : String) (params : List ColumnData)
  | procedure (commandName : String) (params : List RpcParam)
  | beginTransaction (isolationLevel : IsolationLevel)
  | commitTransaction
  | rollbackTransaction
  | saveTransaction (name : String)

namespace Call

variable [StdLib] [EncodingRs]

/-- The request that a call sends; none where an encoder panics. -/
def request : Call → Option ClientRequest
  | simpleQuery text => some (.batch text)
  | query text params =>
    (encodeParams (performParams (rpcParams text) params)).map (.rpc (.id .executeSQL))
  | procedure commandName params => (encodeParams params).map (.rpc (.name commandName))
  | beginTransaction isolationLevel => some (.transactionManager (.begin isolationLevel ""))
  | commitTransaction => some (.transactionManager (.commit ""))
  | rollbackTransaction => some (.transactionManager (.rollback ""))
  | saveTransaction name => some (.transactionManager (.save name))

end Call

end Tiberius
