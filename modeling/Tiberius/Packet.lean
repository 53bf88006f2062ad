import Tiberius.Bytes

/-!
Packets of the transport. A message travels as packets of an eight-byte header
and a payload; the last packet of a message is marked in its status. The header
is encoded with the length it holds, and the length of the whole packet is
written over it once the payload stands behind it.
-/

namespace Tiberius

inductive PacketType where
  | sqlBatch | preTDSv7Login | rpc | tabularResult | attentionSignal | bulkLoad | fat
  | transactionManagerReq | tdsv7Login | sspi | preLogin
  deriving DecidableEq, Repr

def PacketType.toByte : PacketType → UInt8
  | sqlBatch => 1
  | preTDSv7Login => 2
  | rpc => 3
  | tabularResult => 4
  | attentionSignal => 6
  | bulkLoad => 7
  | fat => 8
  | transactionManagerReq => 14
  | tdsv7Login => 16
  | sspi => 17
  | preLogin => 18

inductive PacketStatus where
  | normalMessage | endOfMessage | ignoreEvent | resetConnection | resetConnectionSkipTran
  deriving DecidableEq, Repr

def PacketStatus.toByte : PacketStatus → UInt8
  | normalMessage => 0
  | endOfMessage => 1
  | ignoreEvent => 3
  | resetConnection => 0x08
  | resetConnectionSkipTran => 0x10

structure PacketHeader where
  ty : PacketType
  status : PacketStatus
  length : UInt16
  spid : UInt16
  id : UInt8
  window : UInt8
  deriving DecidableEq, Repr

/-- The number of bytes of a packet header. -/
def headerBytes : ℕ := 8

namespace PacketHeader

/-- `PacketHeader::new` for a length that fits its field. -/
def new (length : UInt16) (id : UInt8) : PacketHeader where
  ty := .tdsv7Login
  status := .resetConnection
  length := length
  spid := 0
  id := id
  window := 0

def rpc (id : UInt8) : PacketHeader := { new 0 id with ty := .rpc, status := .normalMessage }

def preLogin (id : UInt8) : PacketHeader :=
  { new 0 id with ty := .preLogin, status := .endOfMessage }

def login (id : UInt8) : PacketHeader := { new 0 id with status := .endOfMessage }

def batch (id : UInt8) : PacketHeader :=
  { new 0 id with ty := .sqlBatch, status := .normalMessage }

def bulkLoad (id : UInt8) : PacketHeader :=
  { new 0 id with ty := .bulkLoad, status := .normalMessage }

def attention (id : UInt8) : PacketHeader :=
  { new 0 id with ty := .attentionSignal, status := .endOfMessage }

def transactionManager (id : UInt8) : PacketHeader :=
  { new 0 id with ty := .transactionManagerReq, status := .endOfMessage }

def setStatus (header : PacketHeader) (status : PacketStatus) : PacketHeader :=
  { header with status := status }

/-- The eight bytes of a header, its length and process id big-endian. -/
def encode (header : PacketHeader) : List UInt8 :=
  [header.ty.toByte, header.status.toByte] ++ toBe 2 header.length.toNat ++
    toBe 2 header.spid.toNat ++ [header.id, header.window]

@[simp] theorem encode_length (header : PacketHeader) : header.encode.length = headerBytes := by
  simp only [encode, List.length_append, List.length_cons, List.length_nil, toBe_length,
    headerBytes]

end PacketHeader

structure Packet where
  header : PacketHeader
  payload : List UInt8
  deriving DecidableEq, Repr

namespace Packet

def isLast (packet : Packet) : Bool := packet.header.status = .endOfMessage

/-- Write a length over the third and fourth byte of a buffer. -/
def patchLength (dst : List UInt8) (size : UInt16) : List UInt8 :=
  let bytes := toBe 2 size.toNat
  (dst.set 2 (bytes.getD 0 0)).set 3 (bytes.getD 1 0)

/-- `Packet::encode` into a buffer: header and payload are appended, and the
length goes to the third and fourth byte of the buffer itself. -/
def encode (packet : Packet) (dst : List UInt8) : List UInt8 :=
  let size := UInt16.ofNat packet.payload.length + UInt16.ofNat headerBytes
  patchLength (dst ++ packet.header.encode ++ packet.payload) size

@[simp] theorem patchLength_length (dst : List UInt8) (size : UInt16) :
    (patchLength dst size).length = dst.length := by
  simp only [patchLength, List.length_set]

@[simp] theorem encode_length (packet : Packet) (dst : List UInt8) :
    (packet.encode dst).length = dst.length + headerBytes + packet.payload.length := by
  simp only [encode, patchLength_length, List.length_append, PacketHeader.encode_length]

end Packet

end Tiberius
