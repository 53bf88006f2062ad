import Tiberius.Write

/-!
Bulk inserts. A bulk request is one message that stays open over several calls:
rows are gathered in a buffer, full packets are written as soon as the buffer
exceeds one, and the closing call writes what is left with the end of the
message. The rows and the metadata are given by what encoding them yields.
-/

namespace Tiberius

/-- A bulk request on a connection; `message` only tells its packets apart. -/
structure BulkLoadRequest where
  packetId : UInt8
  buf : List UInt8
  message : ℕ
  deriving DecidableEq, Repr

/-- The encoding of a default DONE token, which ends the rows. -/
def defaultDoneBytes : List UInt8 := 0xFD :: List.replicate 12 0

namespace BulkLoadRequest

def new (cmd : Except Error (List UInt8)) (conn : Connection) :
    Except Error BulkLoadRequest × Connection :=
  let (packetId, context) := conn.context.nextPacketId
  let conn := { conn with context := context }
  match cmd with
  | .error error => (.error error, conn)
  | .ok buf =>
    let (message, conn) := conn.openMessage
    (.ok { packetId := packetId, buf := buf, message := message }, conn)

/-- The packet loop of `write_packets`: the header stays that of an open
message. -/
def writeLoop (chunk : ℕ) :
    ℕ → BulkLoadRequest → List Fate → Connection → Attempt × BulkLoadRequest × List Fate
  | 0, request, fates, conn => (.running conn, request, fates)
  | fuel + 1, request, fates, conn =>
    if request.buf.length ≤ chunk then (.returned (.ok ()) conn, request, fates)
    else
      let data := request.buf.take chunk
      let rest := { request with buf := request.buf.drop chunk }
      match conn.writeToWire request.message (.bulkLoad request.packetId) data
          (fates.headD .completes) with
      | .returned (.ok ()) conn => writeLoop chunk fuel rest fates.tail conn
      | other => (other, rest, fates.tail)

def writePackets (request : BulkLoadRequest) (fates : List Fate) (conn : Connection) :
    Attempt × BulkLoadRequest × List Fate :=
  match conn.context.chunkSize with
  | none => (.panicked conn, request, fates)
  | some chunk =>
    if request.buf.length ≤ chunk then (.returned (.ok ()) conn, request, fates)
    else
      let (attempt, request, fates) :=
        writeLoop chunk (request.buf.length + 1) request fates conn.poison
      (attempt.andThen fun conn => .returned (.ok ()) conn.unpoison, request, fates)

/-- `BulkLoadRequest::send`: a row that cannot be encoded leaves the buffer as
it was. -/
def send (request : BulkLoadRequest) (row : Except Error (List UInt8)) (fates : List Fate)
    (conn : Connection) : Attempt × BulkLoadRequest :=
  match conn.ensureNotPoisoned with
  | .error error => (.returned (.error error) conn, request)
  | .ok () =>
    match row with
    | .error error => (.returned (.error error) conn, request)
    | .ok bytes =>
      let (attempt, request, _) :=
        { request with buf := request.buf ++ bytes }.writePackets fates conn
      (attempt, request)

def writeLast (request : BulkLoadRequest) (fates : List Fate) (conn : Connection) : Attempt :=
  let header := (PacketHeader.bulkLoad request.packetId).setStatus .endOfMessage
  (conn.poison.writeToWire request.message header request.buf (fates.headD .completes)).andThen
    fun conn =>
      (conn.flushSink (fates.tail.headD .completes)).andThen
        fun conn => .returned (.ok ()) conn.unpoison

def finalize (request : BulkLoadRequest) (fates : List Fate) (conn : Connection) : Attempt :=
  match conn.ensureNotPoisoned with
  | .error error => .returned (.error error) conn
  | .ok () =>
    let (attempt, request, fates) :=
      { request with buf := request.buf ++ defaultDoneBytes }.writePackets fates conn
    attempt.andThen fun conn => request.writeLast fates conn

end BulkLoadRequest

end Tiberius
