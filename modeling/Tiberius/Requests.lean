import Tiberius.Packet
import Tiberius.Context

/-!
The requests of a client: batches, remote procedure calls and transaction
manager requests. Each begins with the block of headers that carries the
transaction descriptor. The parameters of a procedure call are given by what
encoding them yields.
-/

namespace Tiberius

/-- The length of the header block with a transaction descriptor. -/
def allHeadersLenTx : ℕ := 22

/-- `encode_all_headers_tx`: one header of the descriptor type, with one
outstanding request. -/
def encodeAllHeadersTx (transactionDesc : Vector UInt8 8) : List UInt8 :=
  toLe 4 allHeadersLenTx ++ toLe 4 (allHeadersLenTx - 4) ++ toLe 2 2 ++ transactionDesc.toList ++
    toLe 4 1

/-- UTF-16 units as they stand on the wire. -/
def putUnits (units : List UInt16) : List UInt8 := units.flatMap fun unit => toLe 2 unit.toNat

/-- `encode_b_varchar`: the count is one byte. -/
def encodeBVarchar (text : String) : Except Error (List UInt8) :=
  let units := encodeUtf16 text.toList
  if 255 < units.length then
    .error (.protocol ("string is too long for a B_VARCHAR (" ++ toString units.length ++
      " UTF-16 code units, max 255)"))
  else .ok (UInt8.ofNat units.length :: putUnits units)

inductive IsolationLevel where
  | unspecified | readUncommitted | readCommitted | repeatableRead | serializable | snapshot
  deriving DecidableEq, Repr

def IsolationLevel.toByte : IsolationLevel → UInt8
  | unspecified => 0
  | readUncommitted => 1
  | readCommitted => 2
  | repeatableRead => 3
  | serializable => 4
  | snapshot => 5

inductive TransactionRequestBody where
  | begin (isolationLevel : IsolationLevel) (name : String)
  | commit (name : String)
  | rollback (name : String)
  | save (name : String)
  deriving DecidableEq, Repr

namespace TransactionRequestBody

def requestType : TransactionRequestBody → ℕ
  | begin _ _ => 5
  | commit _ => 7
  | rollback _ => 8
  | save _ => 9

/-- What follows the headers of a transaction manager request. -/
def encode (body : TransactionRequestBody) : Except Error (List UInt8) := do
  let rest ← match body with
    | begin level name => do
      let name ← encodeBVarchar name
      pure (level.toByte :: name)
    | commit name | rollback name => do
      let name ← encodeBVarchar name
      pure (name ++ [0])
    | save name => encodeBVarchar name
  pure (toLe 2 body.requestType ++ rest)

end TransactionRequestBody

inductive RpcProcId where
  | cursorOpen | cursorFetch | cursorClose | executeSQL | prepare | execute | prepExec | unprepare
  deriving DecidableEq, Repr

def RpcProcId.toNat : RpcProcId → ℕ
  | cursorOpen => 2
  | cursorFetch => 7
  | cursorClose => 9
  | executeSQL => 10
  | prepare => 11
  | execute => 12
  | prepExec => 13
  | unprepare => 15

inductive RpcProcIdValue where
  | name (text : String)
  | id (number : RpcProcId)
  deriving DecidableEq, Repr

/-- The procedure of a call: its name, or its number behind a length of 0xffff. -/
def RpcProcIdValue.encode : RpcProcIdValue → Except Error (List UInt8)
  | .id number => .ok (toLe 4 (0xffff + number.toNat * 2 ^ 16))
  | .name text =>
    let units := encodeUtf16 text.toList
    if 65535 < units.length then
      .error (.protocol ("RPC procedure name is too long (" ++ toString units.length ++
        " UTF-16 code units, max 65535)"))
    else .ok (toLe 2 units.length ++ putUnits units)

/-- A request of the client, without its transaction descriptor. -/
inductive ClientRequest where
  | batch (queries : String)
  | rpc (procId : RpcProcIdValue) (params : Except Error (List UInt8))
  | transactionManager (body : TransactionRequestBody)

namespace ClientRequest

def header (id : UInt8) : ClientRequest → PacketHeader
  | batch _ => .batch id
  | rpc _ _ => .rpc id
  | transactionManager _ => .transactionManager id

/-- What follows the headers of a request. -/
def body : ClientRequest → Except Error (List UInt8)
  | batch queries => .ok (putUnits (encodeUtf16 queries.toList))
  | rpc procId params => do
    let proc ← procId.encode
    let params ← params
    pure (proc ++ toLe 2 0 ++ params)
  | transactionManager body => body.encode

/-- The payload of a request under a transaction descriptor. -/
def encode (request : ClientRequest) (transactionDesc : Vector UInt8 8) :
    Except Error (List UInt8) :=
  request.body.map (encodeAllHeadersTx transactionDesc ++ ·)

/-- Transaction manager requests are built before the stream is flushed. -/
def builtBeforeFlush : ClientRequest → Bool
  | transactionManager _ => true
  | _ => false

end ClientRequest

/-- The transaction descriptor that stands in a payload. -/
def attachedDesc (payload : List UInt8) : List UInt8 := (payload.drop 10).take 8

theorem encodeAllHeadersTx_desc (transactionDesc : Vector UInt8 8) (body : List UInt8) :
    attachedDesc (encodeAllHeadersTx transactionDesc ++ body) = transactionDesc.toList := by
  have hfront : (toLe 4 allHeadersLenTx ++ toLe 4 (allHeadersLenTx - 4) ++ toLe 2 2).length = 10 :=
    rfl
  have hlength : transactionDesc.toList.length = 8 := Vector.length_toList
  have hdrop : (encodeAllHeadersTx transactionDesc ++ body).drop 10 =
      transactionDesc.toList ++ (toLe 4 1 ++ body) := by
    rw [encodeAllHeadersTx, List.append_assoc, List.append_assoc]
    exact List.drop_left' hfront
  rw [attachedDesc, hdrop]
  exact List.take_left' hlength

end Tiberius
