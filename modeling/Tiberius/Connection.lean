import Tiberius.Packet
import Tiberius.Tokens
import Tiberius.Reading.Source

/-!
The reading half of a connection. Packets arrive in order; after the last one
the transport stays silent, is closed, or fails. `flushed` records whether the
packet read last ended its message, and `buf` holds the bytes read so far that
no decoder has asked for. Every request for a packet is counted in `polls`.
-/

namespace Tiberius

open Reading

inductive Ending where
  | silent
  | closed
  | failing (error : Error)
  deriving DecidableEq, Repr

/-- A packet handed to the transport: the message it belongs to, whether it
ends that message, and how many of its bytes are on the wire. -/
structure Frame where
  message : ℕ
  last : Bool
  size : ℕ
  sent : ℕ
  deriving DecidableEq, Repr

/-- The transport under a connection. `sink` buffers what is being written and
`wire` is what has been; `polls`, `frames` and `messages` only record. -/
structure Transport where
  inbound : List Packet
  ending : Ending
  sink : List UInt8
  wire : List UInt8
  polls : ℕ
  frames : List Frame
  messages : ℕ
  deriving DecidableEq, Repr

structure Connection where
  transport : Transport
  flushed : Bool
  context : Context
  buf : List UInt8
  poisoned : Bool
  commandDesync : Bool
  deriving DecidableEq, Repr

inductive NextPacket where
  | packet (packet : Packet) (conn : Connection)
  | closed (conn : Connection)
  | failed (error : Error) (conn : Connection)
  | pending (conn : Connection)

namespace Connection

/-- A connection as `connect` sets it up, before anything is sent. -/
def new (inbound : List Packet) (ending : Ending) : Connection where
  transport :=
    { inbound := inbound
      ending := ending
      sink := []
      wire := []
      polls := 0
      frames := []
      messages := 0 }
  flushed := false
  context := .new
  buf := []
  poisoned := false
  commandDesync := false

def arrive (conn : Connection) (packets : List Packet) (ending : Ending) : Connection :=
  { conn with
    transport :=
      { conn.transport with
        inbound := conn.transport.inbound ++ packets
        ending := ending } }

/-- The connection after a poll that took what arrived and left the rest. -/
def polled (conn : Connection) (rest : List Packet) : Connection :=
  { conn with
    transport := { conn.transport with inbound := rest, polls := conn.transport.polls + 1 } }

/-- `Stream::poll_next`: the next packet decides `flushed`. -/
def pollNext (conn : Connection) : NextPacket :=
  match conn.transport.inbound with
  | packet :: rest => .packet packet { conn.polled rest with flushed := packet.isLast }
  | [] =>
    match conn.transport.ending with
    | .silent => .pending (conn.polled [])
    | .closed => .closed (conn.polled [])
    | .failing error => .failed error (conn.polled [])

/-- The refill loop of `poll_read`: packets are taken until `size` bytes are
buffered. One turn takes one packet, so there are at most `fuel` turns. -/
def refill (size : ℕ) : ℕ → Connection → Poll Fault UInt8 Connection
  | 0, conn => .pending conn
  | fuel + 1, conn =>
    match conn.pollNext with
    | .packet packet conn =>
      let conn := { conn with buf := conn.buf ++ packet.payload }
      if size ≤ conn.buf.length then
        .ready (conn.buf.take size) { conn with buf := conn.buf.drop size }
      else refill size fuel conn
    | .closed conn =>
      .broken (.error (.io .unexpectedEof "No more packets in the wire")) conn
    | .failed error conn => .broken (.error (.io .brokenPipe error.display)) conn
    | .pending conn => .pending conn

def pollRead (size : ℕ) (conn : Connection) : Poll Fault UInt8 Connection :=
  if conn.buf.length < size then refill size (conn.transport.inbound.length + 1) conn
  else .ready (conn.buf.take size) { conn with buf := conn.buf.drop size }

def isEof (conn : Connection) : Bool := conn.flushed && conn.buf.isEmpty

def poisonedError : Error := .protocol <|
  "connection was left in an inconsistent state by a cancelled write and can no longer be used; " ++
    "open a new connection"

def desyncError : Error := .protocol <|
  "connection was left out of sync with the server by a command timeout (the previous response " ++
    "is only partly read) and can no longer be used; open a new connection"

def ensureNotPoisoned (conn : Connection) : Except Error Unit :=
  if conn.poisoned then .error poisonedError
  else if conn.commandDesync then .error desyncError
  else .ok ()

end Connection

/-- How an operation on a connection ends; a waiting one has not returned. -/
inductive Finished (α : Type) where
  | returned (result : Except Error α) (conn : Connection)
  | panicked (conn : Connection)
  | waiting (conn : Connection)

def Finished.conn {α : Type} : Finished α → Connection
  | returned _ conn => conn
  | panicked conn => conn
  | waiting conn => conn

namespace Connection

/-- The drain loop of `flush_stream`: whole packets up to the one that ends the
message. One turn takes one packet. -/
def drain : ℕ → Connection → Finished Unit
  | 0, conn => .waiting conn
  | fuel + 1, conn =>
    match conn.pollNext with
    | .packet packet conn => if packet.isLast then .returned (.ok ()) conn else drain fuel conn
    | .closed conn => .returned (.ok ()) conn
    | .failed error conn => .returned (.error error) { conn with poisoned := true }
    | .pending conn => .waiting conn

/-- `flush_stream`: drop what is buffered, then what is left of the response. -/
def flushStream (conn : Connection) : Finished Unit :=
  match conn.ensureNotPoisoned with
  | .error error => .returned (.error error) conn
  | .ok () =>
    let conn := { conn with buf := [] }
    if conn.flushed then .returned (.ok ()) conn
    else drain (conn.transport.inbound.length + 1) conn

end Connection

end Tiberius
