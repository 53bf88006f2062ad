import Tiberius.Config
import Tiberius.Encoders
import Tiberius.Login
import Tiberius.Machine.Integers
import Tiberius.Staging.Stages
import Tiberius.Write

/-!
The handshake of a connection: pre-login, TLS and login. The transport stands on
the socket itself or on a TLS stream over it, and is put on the other one on the
way; what the transports before have written is kept. A peer is what the other
side sends on each of these streams, what the TLS handshake comes to, and what
becomes of every write. A future that is dropped stops where it stands.
-/

namespace Tiberius

open Machine Reading Staging

/-- The stream under a transport. -/
inductive Channel where
  | raw | tls
  deriving DecidableEq, Repr

/-- The packets that arrive on a stream, and what follows them. -/
structure Arrivals where
  packets : List Packet
  ending : Ending
  deriving DecidableEq, Repr

/-- A connection on a stream, and what transports before this one have written. -/
structure Link where
  conn : Connection
  channel : Channel
  earlier : List (Channel × List UInt8)
  deriving DecidableEq, Repr

namespace Link

/-- All that has been written, in order, with the stream that it was written to. -/
def written (link : Link) : List (Channel × List UInt8) :=
  link.earlier ++ [(link.channel, link.conn.transport.wire)]

/-- `Framed::new` over another stream. The old transport is dropped with what it has
read or buffered. -/
def reframe (link : Link) (channel : Channel) (arrivals : Arrivals) : Link where
  conn :=
    { link.conn with transport := (Connection.new arrivals.packets arrivals.ending).transport }
  channel := channel
  earlier := link.written

/-- The connection that `tls_handshake` makes of what is left of the old one. -/
def secured (link : Link) (arrivals : Arrivals) : Link :=
  let link := link.reframe .tls arrivals
  { link with conn := { link.conn with flushed := false, buf := [], poisoned := false } }

end Link

/-- What the driver runs on. A security package answers what it has been given so
far, for a user or for the account that runs the driver, at a service. -/
structure Platform where
  features : Features
  build : Build
  driverVersion : UInt64
  computerName : String
  package : Option WindowsAuth → String → Option (List UInt8) →
    Except Error (Option (List UInt8))

/-- The other side. A TLS handshake that goes on has come to nothing. -/
structure Peer where
  clear : Arrivals
  handshake : Option (Except Error Arrivals)
  afterLogin : Arrivals
  preloginFates : List Fate
  loginFates : List Fate
  replyFates : List Fate

namespace PreloginMessage

/-- `validate_instance`: any name in the answer is a refusal. -/
def validateInstance [StdLib] (message : PreloginMessage) (requested : Option String) :
    Except Error Unit :=
  match requested, message.instanceName with
  | none, _ => .ok ()
  | some _, none => .ok ()
  | some requested, some other =>
    .error (.protocol ("server rejected the requested instance " ++ StdLib.debugStr requested ++
      " (INSTOPT validity byte was non-zero, got " ++ StdLib.debugStr other ++ ")"))

def levelRefused : Error :=
  .protocol "Server does not allow the requested encryption level."

/-- `negotiated_encryption`, without a TLS backend too. -/
def negotiatedEncryption (message : PreloginMessage) (features : Features)
    (expected : EncryptionLevel) : Except Error EncryptionLevel :=
  if features.tls then
    match expected, message.encryption with
    | .notSupported, .notSupported => .ok .notSupported
    | .off, .off => .ok .off
    | .on, .off | .on, .notSupported => .error levelRefused
    | .required, .off | .required, .notSupported => .error levelRefused
    | .strict, _ => .ok .strict
    | _, _ => .ok .on
  else .ok .notSupported

end PreloginMessage

/-- The nonce of a pre-login, as a login echoes it. -/
def PreloginMessage.nonceVector (message : PreloginMessage) : Option (Vector UInt8 32) :=
  message.nonce.map fun nonce =>
    ⟨nonce.val.toArray, by simp only [List.size_toArray, nonce.property]⟩

namespace LoginMessage

def setDbName (msg : LoginMessage) (dbName : String) : LoginMessage := { msg with dbName := dbName }

def setServerName (msg : LoginMessage) (serverName : String) : LoginMessage :=
  { msg with serverName := serverName }

def setAppName (msg : LoginMessage) (name : String) : LoginMessage := { msg with appName := name }

def setHostname (msg : LoginMessage) (hostname : String) : LoginMessage :=
  { msg with hostname := hostname }

def setUserName (msg : LoginMessage) (userName : String) : LoginMessage :=
  { msg with username := userName }

def setPassword (msg : LoginMessage) (password : String) : LoginMessage :=
  { msg with password := password }

/-- `LoginTypeFlag::ReadOnlyIntent`. -/
def readOnlyIntent : UInt8 := 0x20

def setReadonly (msg : LoginMessage) (readonly : Bool) : LoginMessage :=
  { msg with typeFlags :=
      if readonly then msg.typeFlags ||| readOnlyIntent else msg.typeFlags &&& ~~~readOnlyIntent }

def setPacketSize (msg : LoginMessage) (size : UInt32) : LoginMessage :=
  { msg with packetSize := size }

/-- `OptionFlag2::IntegratedSecurity`. -/
def integratedFlag : UInt8 := 0x80

def setIntegratedSecurity (msg : LoginMessage) (bytes : Option (List UInt8)) : LoginMessage :=
  { msg with
    optionFlags2 :=
      if bytes.isSome then msg.optionFlags2 ||| integratedFlag
      else msg.optionFlags2 &&& ~~~integratedFlag
    integratedSecurity := bytes }

/-- `OptionFlag3::ExtensionUsed`. -/
def extensionUsed : UInt8 := 0x10

def setAadToken (msg : LoginMessage) (token : String) (fedAuthEcho : Bool)
    (nonce : Option (Vector UInt8 32)) : LoginMessage :=
  { msg with
    optionFlags3 := msg.optionFlags3 ||| extensionUsed
    fedAuthExt := some { fedAuthEcho := fedAuthEcho, fedAuthToken := token, nonce := nonce } }

/-- The fields that `login` sets for every method of authentication. -/
def ofConfig (computerName : String) (config : Config) : LoginMessage :=
  let msg := new computerName
  let msg := config.database.elim msg msg.setDbName
  let msg := config.host.elim msg msg.setServerName
  let msg := config.applicationName.elim msg msg.setAppName
  let msg := config.clientName.elim msg msg.setHostname
  let msg := msg.setReadonly config.readonly
  config.packetSize.elim msg msg.setPacketSize

end LoginMessage

/-- `PacketHeader::sspi`. -/
def PacketHeader.sspi (id : UInt8) : PacketHeader :=
  { new 0 id with ty := .sspi, status := .endOfMessage }

namespace Connection

/-- The loop of `collect_from` over the packets of a message. -/
def collect : ℕ → List UInt8 → Connection → Finished (List UInt8)
  | 0, _, conn => .waiting conn
  | fuel + 1, buf, conn =>
    match conn.pollNext with
    | .packet packet conn =>
      if packet.isLast then .returned (.ok (buf ++ packet.payload)) conn
      else collect fuel (buf ++ packet.payload) conn
    | .closed conn => .returned (.ok buf) conn
    | .failed error conn => .returned (.error error) conn
    | .pending conn => .waiting conn

/-- `collect_from` up to the decoder: a message, or what there is of one. -/
def collectMessage (conn : Connection) : Finished (List UInt8) :=
  collect (conn.transport.inbound.length + 1) [] conn

end Connection

/-- A computation on a link that ends as one on its connection does. -/
abbrev Linked (α : Type) : Type := Stage Error Link α

namespace Linked

def ofAttempt (write : Connection → Attempt) : Linked Unit where
  run link :=
    match write link.conn with
    | .returned (.ok ()) conn => .returned () { link with conn := conn }
    | .returned (.error error) conn => .failed error { link with conn := conn }
    | .panicked conn => .panicked { link with conn := conn }
    | .dropped conn | .running conn => .stopped { link with conn := conn }

def ofFinished {α : Type} (read : Connection → Finished α) : Linked α where
  run link :=
    match read link.conn with
    | .returned (.ok value) conn => .returned value { link with conn := conn }
    | .returned (.error error) conn => .failed error { link with conn := conn }
    | .panicked conn => .panicked { link with conn := conn }
    | .waiting conn => .stopped { link with conn := conn }

def ofFault {α : Type} : Except Fault α → Linked α
  | .ok value => pure value
  | .error (.error error) => Stage.fail error
  | .error .panic => Stage.panic

def ofStop {α : Type} : Except (Stop Error) α → Linked α
  | .ok value => pure value
  | .error (.error error) => Stage.fail error
  | .error .outOfBounds | .error .endless => Stage.panic

def nextPacketId : Linked UInt8 where
  run link :=
    .returned link.conn.context.nextPacketId.1
      { link with conn := { link.conn with context := link.conn.context.nextPacketId.2 } }

/-- `send` with the next packet id. An item whose encoding panics is reached behind
the guard of `send`. -/
def sendItem (header : UInt8 → PacketHeader) (item : Except Fault (List UInt8))
    (fates : List Fate) : Linked Unit := do
  let id ← nextPacketId
  match item with
  | .ok payload => ofAttempt fun conn => conn.send (header id) (.ok payload) fates
  | .error (.error error) => ofAttempt fun conn => conn.send (header id) (.error error) fates
  | .error .panic => do
    let link ← Stage.get
    Stage.ofExcept link.conn.ensureNotPoisoned
    Stage.panic

end Linked

namespace Establish

open Linked

variable (platform : Platform) (config : Config) (peer : Peer)

/-- The service that a security package is asked for. -/
def spn : String := "MSSQLSvc/" ++ config.getHost ++ ":" ++ toString config.getPort

/-- The context in front of the handshake; the command timeout comes behind it. -/
def context : Context :=
  { Context.new with
    lossyUtf16 := config.lossyUtf16Decoding
    lossyCodepage := config.lossyCodepageDecoding }

/-- The socket, with nothing read from it or written to it. -/
def start : Link where
  conn :=
    { Connection.new peer.clear.packets peer.clear.ending with context := context config }
  channel := .raw
  earlier := []

/-- `create_tls_stream` over the socket, and the transport over the stream. -/
def createTlsStream : Linked Unit where
  run link :=
    match peer.handshake with
    | none => .stopped link
    | some (.error error) => .failed error link
    | some (.ok arrivals) => .returned () (link.secured arrivals)

/-- In strict mode TLS stands in front of the pre-login. -/
def strictTls : Linked Unit :=
  if platform.features.tls && config.encryption == .strict then createTlsStream peer else pure ()

def preloginMessage : PreloginMessage :=
  { PreloginMessage.new platform.driverVersion with
    encryption := config.encryption
    fedAuthRequired := match config.auth with
      | .aadToken _ => true
      | _ => false
    instanceName := config.instanceName }

/-- `prelogin`: the message, and the answer to it. -/
def prelogin [StdLib] : Linked PreloginMessage := do
  sendItem .preLogin ((preloginMessage platform config).encode []) peer.preloginFates
  let src ← ofFinished Connection.collectMessage
  let response ← ofStop (PreloginMessage.decode platform.driverVersion src)
  if platform.build = .panics ∧ response.threadId ≠ 0 then Stage.panic
  else
    Stage.ofExcept (response.validateInstance config.instanceName)
    pure response

def backendMissing : Error :=
  .tls ("TLS encryption was requested but the crate was compiled without a TLS backend. " ++
    "Enable one of the `native-tls`, `rustls` or `vendored-openssl` features.")

/-- `check_tls_backend_available`. -/
def checkTlsBackendAvailable : EncryptionLevel → Except Error Unit
  | .on | .required | .strict => .error backendMissing
  | .off | .notSupported => .ok ()

/-- TLS over the socket; a transport that is on a TLS stream already is not expected. -/
def wrapSocket : Linked Unit where
  run link := if link.channel = .raw then (createTlsStream peer).run link else .panicked link

/-- `tls_handshake`, with and without a TLS backend. -/
def tlsHandshake (encryption : EncryptionLevel) : Linked Unit :=
  if platform.features.tls then
    match encryption with
    | .notSupported | .strict => pure ()
    | .off | .on | .required => wrapSocket peer
  else Stage.ofExcept (checkTlsBackendAvailable config.encryption)

/-- `post_login_encryption`: at `Off` the socket is taken out of the TLS stream. -/
def postLoginEncryption (encryption : EncryptionLevel) : Linked Unit :=
  if platform.features.tls && encryption == .off then
    Stage.modify fun link => link.reframe .raw peer.afterLogin
  else pure ()

/-- `send_sensitive_login` of an encoded message, and what follows every login. -/
def sensitiveLogin (message : LoginMessage) (encryption : EncryptionLevel) : Linked Unit := do
  let payload ← ofFault message.encodeToBoxedSlice
  let id ← nextPacketId
  ofAttempt fun conn => conn.sendSensitiveLogin (.login id) payload peer.loginFates
  postLoginEncryption platform peer encryption

def noInitialToken : Error := .protocol "GSSAPI produced no initial token"

def noResponse : Error := .protocol "NTLM handshake produced no response to the server challenge"

/-- The two legs of a login with a security package: its first token goes out in the
login message, its answer to the challenge of the server in a message of its own. -/
def challenged [EncodingRs] (first : Except Error (Option (List UInt8)))
    (respond : List UInt8 → Except Error (List UInt8)) (header : UInt8 → PacketHeader)
    (message : LoginMessage) (encryption : EncryptionLevel) : Linked Unit := do
  let bytes ← Stage.ofExcept first
  sendItem .login (message.setIntegratedSecurity bytes).encodeToBoxedSlice peer.loginFates
  postLoginEncryption platform peer encryption
  let challenge ← ofFinished (flushSspi.run none)
  let token ← Stage.ofExcept (respond challenge.bytes)
  sendItem header (.ok token) peer.replyFates

/-- The answer of a package that may have nothing to say to a challenge. -/
def winauthResponse (auth : Option WindowsAuth) (challenge : List UInt8) :
    Except Error (List UInt8) := do
  match ← platform.package auth (spn config) (some challenge) with
  | some response => pure response
  | none => throw noResponse

/-- The answer of a package of which nothing is an empty answer. -/
def packageResponse (auth : Option WindowsAuth) (challenge : List UInt8) :
    Except Error (List UInt8) := do
  let output ← platform.package auth (spn config) (some challenge)
  pure (output.getD [])

def winauthLogin [EncodingRs] (auth : Option WindowsAuth) (header : UInt8 → PacketHeader)
    (message : LoginMessage) (encryption : EncryptionLevel) : Linked Unit :=
  challenged platform peer (platform.package auth (spn config) none)
    (winauthResponse platform config auth) header message encryption

def gssapiLogin [EncodingRs] (message : LoginMessage) (encryption : EncryptionLevel) :
    Linked Unit :=
  challenged platform peer
    (do
      match ← platform.package none (spn config) none with
      | some token => pure (some token)
      | none => throw noInitialToken)
    (packageResponse platform config none) .login message encryption

/-- The package that fills a buffer with each token. -/
def sspiLogin [EncodingRs] (auth : WindowsAuth) (message : LoginMessage)
    (encryption : EncryptionLevel) : Linked Unit :=
  challenged platform peer
    (do
      let output ← platform.package (some auth) (spn config) none
      pure (some (output.getD [])))
    (packageResponse platform config (some auth)) .login message encryption

/-- `login` for each method. A method that a platform does not have is not among the
values of its type. -/
def login [EncodingRs] (encryption : EncryptionLevel) (prelogin : PreloginMessage) :
    Linked Unit :=
  let message := LoginMessage.ofConfig platform.computerName config
  match config.auth, platform.features.security with
  | .none, _ => do
    sendItem .login message.encodeToBoxedSlice peer.loginFates
    postLoginEncryption platform peer encryption
  | .sqlServer user password, _ =>
    sensitiveLogin platform peer ((message.setUserName user).setPassword password) encryption
  | .aadToken token, _ =>
    sensitiveLogin platform peer
      (message.setAadToken token prelogin.fedAuthRequired prelogin.nonceVector) encryption
  | .integrated, .winauth => winauthLogin platform config peer none .sspi message encryption
  | .windows auth, .winauth =>
    winauthLogin platform config peer (some auth) .login message encryption
  | .integrated, .gssapi | .integrated, .sspiRsGssapi =>
    gssapiLogin platform config peer message encryption
  | .windows auth, .sspiRs | .windows auth, .sspiRsGssapi =>
    sspiLogin platform config peer auth message encryption
  | .integrated, .none | .integrated, .sspiRs | .windows _, .none | .windows _, .gssapi =>
    Stage.panic

/-- The command timeout is armed when the handshake is over. -/
def armCommandTimeout : Linked Unit :=
  Stage.modify fun link =>
    { link with
      conn :=
        { link.conn with
          context := { link.conn.context with commandTimeout := config.commandTimeout } } }

/-- `establish`, from the socket on. -/
def establish [StdLib] [EncodingRs] : Linked Unit := do
  strictTls platform config peer
  let prelogin ← prelogin platform config peer
  let encryption ←
    Stage.ofExcept (prelogin.negotiatedEncryption platform.features config.encryption)
  tlsHandshake platform config peer encryption
  login platform config peer encryption prelogin
  let _ ← ofFinished (flushDone.run (none, none))
  armCommandTimeout config

def timedOut (timeout : Duration) : Error := .io .timedOut <|
  "the connection handshake (prelogin, TLS negotiation and login) did not complete within " ++
    timeout.debug ++ "; the server accepted the TCP connection but did not finish the handshake " ++
    "in time (it may have stalled, or be responding too slowly for the configured bound). Enable " ++
    "`tracing` at DEBUG to see which stage was last reached, or change the bound with " ++
    "`Config::handshake_timeout`."

/-- `with_optional_timeout`: a bound turns what does not return into an error. -/
def withOptionalTimeout {α : Type} (timeout : Option Duration) (exit : Exit Error Link α) :
    Exit Error Link α :=
  match timeout, exit with
  | some timeout, .stopped link => .failed (timedOut timeout) link
  | _, exit => exit

/-- `connect`. -/
def connect [StdLib] [EncodingRs] : Exit Error Link Unit :=
  withOptionalTimeout config.handshakeTimeout
    ((establish platform config peer).run (start config peer))

end Establish

end Tiberius
