import Tiberius.TokenStream

/-!
The writing half of a connection. Every await of a write can complete, fail, or
never return because its future is dropped; in the latter two cases some bytes
of what was being written have reached the wire. The loops that split a message
into packets run as long as bytes are left, and a loop that makes no progress is
told apart from one that ends.
-/

namespace Tiberius

inductive Fate where
  | completes
  | fails (error : Error) (written : ℕ)
  | dropped (written : ℕ)
  deriving DecidableEq, Repr

/-- How a write ends. `running` is a loop that has used up its turns. -/
inductive Attempt where
  | returned (result : Except Error Unit) (conn : Connection)
  | dropped (conn : Connection)
  | panicked (conn : Connection)
  | running (conn : Connection)

def Attempt.conn : Attempt → Connection
  | returned _ conn => conn
  | dropped conn => conn
  | panicked conn => conn
  | running conn => conn

def Attempt.andThen (attempt : Attempt) (next : Connection → Attempt) : Attempt :=
  match attempt with
  | returned (.ok ()) conn => next conn
  | other => other

/-- Bytes that reach the wire go to the frames that are not complete, in order. -/
def Frame.credit : ℕ → List Frame → List Frame
  | _, [] => []
  | count, frame :: rest =>
    let used := min count (frame.size - frame.sent)
    { frame with sent := frame.sent + used } :: credit (count - used) rest

namespace Transport

def advance (transport : Transport) (count : ℕ) : Transport :=
  { transport with
    sink := transport.sink.drop count
    wire := transport.wire ++ transport.sink.take count
    frames := Frame.credit (min count transport.sink.length) transport.frames }

def enqueue (transport : Transport) (message : ℕ) (packet : Packet) : Transport :=
  { transport with
    sink := packet.encode transport.sink
    frames := transport.frames ++
      [{ message := message
         last := packet.isLast
         size := headerBytes + packet.payload.length
         sent := 0 }] }

def writeThrough (transport : Transport) (message : ℕ) (last : Bool) (frame : List UInt8)
    (count : ℕ) : Transport :=
  { transport with
    wire := transport.wire ++ frame.take count
    frames := transport.frames ++
      [{ message := message, last := last, size := frame.length, sent := min count frame.length }] }

end Transport

namespace Context

/-- The payload of a full packet; `none` when the subtraction underflows. -/
def chunkSize (context : Context) : Option ℕ :=
  if headerBytes ≤ context.packetSize.toNat then some (context.packetSize.toNat - headerBytes)
  else none

end Context

namespace Connection

/-- A number for the message that starts, which only tells messages apart. -/
def openMessage (conn : Connection) : ℕ × Connection :=
  (conn.transport.messages,
    { conn with
      transport := { conn.transport with messages := conn.transport.messages + 1 } })

def flushSink (fate : Fate) (conn : Connection) : Attempt :=
  let advanced (count : ℕ) : Connection :=
    { conn with transport := conn.transport.advance count }
  match fate with
  | .completes => .returned (.ok ()) (advanced conn.transport.sink.length)
  | .fails error written => .returned (.error error) (advanced written)
  | .dropped written => .dropped (advanced written)

def writeToWire (message : ℕ) (header : PacketHeader) (data : List UInt8) (fate : Fate)
    (conn : Connection) : Attempt :=
  flushSink fate
    { conn with
      flushed := false
      transport := conn.transport.enqueue message { header := header, payload := data } }

def sendLoop (message chunk : ℕ) :
    ℕ → PacketHeader → List UInt8 → List Fate → Connection → Attempt
  | 0, _, _, _, conn => .running conn
  | fuel + 1, header, payload, fates, conn =>
    if payload.isEmpty then flushSink (fates.headD .completes) conn
    else
      let splitPayload := payload.take (min payload.length chunk)
      let payload := payload.drop (min payload.length chunk)
      let header :=
        header.setStatus (if payload.isEmpty then .endOfMessage else .normalMessage)
      (writeToWire message header splitPayload (fates.headD .completes) conn).andThen fun conn =>
        sendLoop message chunk fuel header payload fates.tail conn

def poison (conn : Connection) : Connection := { conn with poisoned := true }

def unpoison (conn : Connection) : Connection := { conn with poisoned := false }

/-- `send`; the item is given by what encoding it into an empty buffer yields. -/
def send (header : PacketHeader) (item : Except Error (List UInt8)) (fates : List Fate)
    (conn : Connection) : Attempt :=
  match conn.ensureNotPoisoned with
  | .error error => .returned (.error error) conn
  | .ok () =>
    let conn := { conn with flushed := false }
    match conn.context.chunkSize with
    | none => .panicked conn
    | some chunk =>
      match item with
      | .error error => .returned (.error error) conn
      | .ok payload =>
        let (message, conn) := conn.openMessage
        (sendLoop message chunk (payload.length + 1) header payload fates conn.poison).andThen
          fun conn => .returned (.ok ()) conn.unpoison

/-- The loop of `frame_sensitive_login` from an offset on; `none` when it has
used up its turns. -/
def frameLoop (payload : List UInt8) (chunk : ℕ) :
    ℕ → PacketHeader → ℕ → Option (List (List UInt8))
  | 0, _, offset => if offset < payload.length then none else some []
  | fuel + 1, header, offset =>
    if offset < payload.length then
      let stop := min payload.length (offset + chunk)
      let header :=
        header.setStatus (if stop = payload.length then .endOfMessage else .normalMessage)
      let frame := header.encode ++ (payload.drop offset).take (stop - offset)
      (frameLoop payload chunk fuel header stop).map
        (Packet.patchLength frame (UInt16.ofNat frame.length) :: ·)
    else some []

def frameSensitiveLogin (header : PacketHeader) (payload : List UInt8) (chunk : ℕ) :
    Option (List (List UInt8)) :=
  frameLoop payload chunk payload.length header 0

def writeAll (message : ℕ) (last : Bool) (frame : List UInt8) (fate : Fate) (conn : Connection) :
    Attempt :=
  let written (count : ℕ) : Connection :=
    { conn with transport := conn.transport.writeThrough message last frame count }
  match fate with
  | .completes => .returned (.ok ()) (written frame.length)
  | .fails error count => .returned (.error error) (written count)
  | .dropped count => .dropped (written count)

/-- The flush of the stream under the sink: there is nothing to move. -/
def flushStreamBelow (fate : Fate) (conn : Connection) : Attempt :=
  match fate with
  | .completes => .returned (.ok ()) conn
  | .fails error _ => .returned (.error error) conn
  | .dropped _ => .dropped conn

def writeFrames (message : ℕ) : List (List UInt8) → List Fate → Connection → Attempt
  | [], fates, conn => flushStreamBelow (fates.headD .completes) conn
  | frame :: rest, fates, conn =>
    (writeAll message rest.isEmpty frame (fates.headD .completes) conn).andThen fun conn =>
      writeFrames message rest fates.tail conn

def sendSensitiveLogin (header : PacketHeader) (payload : List UInt8) (fates : List Fate)
    (conn : Connection) : Attempt :=
  match conn.ensureNotPoisoned with
  | .error error => .returned (.error error) conn
  | .ok () =>
    let conn := { conn with flushed := false }
    match conn.context.chunkSize with
    | none => .panicked conn
    | some chunk =>
      match frameSensitiveLogin header payload chunk with
      | none => .running conn
      | some frames =>
        let (message, conn) := conn.openMessage
        (writeFrames message frames fates conn.poison).andThen
          fun conn => .returned (.ok ()) conn.unpoison

/-- The writing half of `cancel_request`: one packet without a payload. -/
def sendAttention (fates : List Fate) (conn : Connection) : Attempt :=
  match conn.ensureNotPoisoned with
  | .error error => .returned (.error error) conn
  | .ok () =>
    let (id, context) := conn.context.nextPacketId
    let (message, conn) := { conn with context := context }.openMessage
    (writeToWire message (.attention id) [] (fates.headD .completes) conn.poison).andThen
      fun conn =>
        (flushSink (fates.tail.headD .completes) conn).andThen
          fun conn => .returned (.ok ()) conn.unpoison

end Connection

end Tiberius
