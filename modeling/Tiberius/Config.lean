import Tiberius.Prelogin
import Tiberius.Reading.Runs

/-!
The configuration of a connection and the calls that build one. Certificates are
trusted by a store, with extra ones on top of it, or not looked at at all; the
calls that would mix the two panic, so that no sequence of calls does.
-/

namespace Tiberius

open Reading

/-- The base set of trust anchors. -/
inductive RootSource where
  | native | webpkiRoots
  deriving DecidableEq, Repr

/-- A certificate on top of them, in a file or in memory. -/
inductive ExtraCa where
  | file (path : String)
  | bundle (bytes : List UInt8)
  deriving DecidableEq, Repr

structure TrustConfig where
  source : RootSource
  extraCas : List ExtraCa
  bypass : Bool
  deriving DecidableEq, Repr

/-- `TrustConfig::default`. -/
def TrustConfig.default : TrustConfig where
  source := .native
  extraCas := []
  bypass := false

structure WindowsAuth where
  user : String
  password : String
  domain : Option String
  deriving DecidableEq, Repr

/-- How a client authenticates. Which of these there are depends on the platform. -/
inductive AuthMethod where
  | sqlServer (user password : String)
  | windows (auth : WindowsAuth)
  | integrated
  | aadToken (token : String)
  | none
  deriving DecidableEq, Repr

/-- `AuthMethod::windows`: the part up to a backslash is the domain. -/
def AuthMethod.ofWindows (user password : String) : AuthMethod :=
  match user.toList.dropWhile (· ≠ '\\') with
  | [] => .windows { user := user, password := password, domain := Option.none }
  | _ :: rest =>
    .windows
      { user := String.ofList rest
        password := password
        domain := some (String.ofList (user.toList.takeWhile (· ≠ '\\'))) }

/-- The support for integrated security that a crate was built with. -/
inductive Security where
  | none | winauth | gssapi | sspiRs | sspiRsGssapi
  deriving DecidableEq, Repr

/-- What a crate was built with. -/
structure Features where
  tls : Bool
  tds80 : Bool
  security : Security
  deriving DecidableEq, Repr

structure Config where
  host : Option String
  port : Option UInt16
  database : Option String
  instanceName : Option String
  applicationName : Option String
  encryption : EncryptionLevel
  trust : TrustConfig
  auth : AuthMethod
  readonly : Bool
  packetSize : Option UInt32
  hostnameInCertificate : Option String
  clientName : Option String
  multiSubnetFailover : Bool
  handshakeTimeout : Option Duration
  commandTimeout : Option Duration
  lossyUtf16Decoding : Bool
  lossyCodepageDecoding : Bool
  deriving DecidableEq, Repr

/-- A call of a setter. -/
inductive ConfigCall where
  | host (host : String)
  | port (port : UInt16)
  | database (database : String)
  | instanceName (name : String)
  | applicationName (name : String)
  | packetSize (size : UInt32)
  | encryption (encryption : EncryptionLevel)
  | trustCert
  | trustCertCa (path : String)
  | trustCertCaBundle (bundle : List UInt8)
  | trustWebpkiRoots
  | hostnameInCertificate (hostname : String)
  | clientName (name : String)
  | authentication (auth : AuthMethod)
  | readonly (readonly : Bool)
  | multiSubnetFailover (multiSubnetFailover : Bool)
  | handshakeTimeout (timeout : Option Duration)
  | commandTimeout (timeout : Option Duration)
  | lossyUtf16Decoding (lossy : Bool)
  | lossyCodepageDecoding (lossy : Bool)

namespace Config

def defaultHandshakeTimeout : Duration where
  nanos := 15 * 10 ^ 9

def defaultCommandTimeout : Duration where
  nanos := 30 * 10 ^ 9

/-- `Config::new`. -/
def new (features : Features) : Config where
  host := none
  port := none
  database := none
  instanceName := none
  applicationName := none
  encryption := if features.tls then .required else .notSupported
  trust := .default
  auth := .none
  readonly := false
  packetSize := none
  hostnameInCertificate := none
  clientName := none
  multiSubnetFailover := false
  handshakeTimeout := some defaultHandshakeTimeout
  commandTimeout := some defaultCommandTimeout
  lossyUtf16Decoding := false
  lossyCodepageDecoding := false

/-- `trust_cert`: panics behind a call that has named certificates. -/
def trustCert (config : Config) : Except Fault Config :=
  if !config.trust.extraCas.isEmpty || config.trust.source ≠ .native then .error .panic
  else .ok { config with trust := { config.trust with bypass := true } }

def pushCa (config : Config) (ca : ExtraCa) : Except Fault Config :=
  if config.trust.bypass then .error .panic
  else .ok { config with trust := { config.trust with extraCas := config.trust.extraCas ++ [ca] } }

def trustCertCa (config : Config) (path : String) : Except Fault Config :=
  config.pushCa (.file path)

def trustCertCaBundle (config : Config) (bundle : List UInt8) : Except Fault Config :=
  config.pushCa (.bundle bundle)

def trustWebpkiRoots (config : Config) : Except Fault Config :=
  if config.trust.bypass then .error .panic
  else .ok { config with trust := { config.trust with source := .webpkiRoots } }

/-- One call of a setter. -/
def call (config : Config) : ConfigCall → Except Fault Config
  | .host host => .ok { config with host := some host }
  | .port port => .ok { config with port := some port }
  | .database database => .ok { config with database := some database }
  | .instanceName name => .ok { config with instanceName := some name }
  | .applicationName name => .ok { config with applicationName := some name }
  | .packetSize size => .ok { config with packetSize := some size }
  | .encryption encryption => .ok { config with encryption := encryption }
  | .trustCert => config.trustCert
  | .trustCertCa path => config.trustCertCa path
  | .trustCertCaBundle bundle => config.trustCertCaBundle bundle
  | .trustWebpkiRoots => config.trustWebpkiRoots
  | .hostnameInCertificate hostname => .ok { config with hostnameInCertificate := some hostname }
  | .clientName name => .ok { config with clientName := some name }
  | .authentication auth => .ok { config with auth := auth }
  | .readonly readonly => .ok { config with readonly := readonly }
  | .multiSubnetFailover failover => .ok { config with multiSubnetFailover := failover }
  | .handshakeTimeout timeout => .ok { config with handshakeTimeout := timeout }
  | .commandTimeout timeout => .ok { config with commandTimeout := timeout }
  | .lossyUtf16Decoding lossy => .ok { config with lossyUtf16Decoding := lossy }
  | .lossyCodepageDecoding lossy => .ok { config with lossyCodepageDecoding := lossy }

/-- A dot as host is the local one. -/
def getHost (config : Config) : String :=
  (config.host.filter fun host => host ≠ ".").getD "localhost"

def getHostnameInCertificate (config : Config) : String :=
  config.hostnameInCertificate.getD config.getHost

/-- The port that is set, or that of the SQL Browser, or the default one. -/
def getPort (config : Config) : UInt16 :=
  match config.port, config.instanceName with
  | some port, _ => port
  | none, some _ => 1434
  | none, none => 1433

def getAddr (config : Config) : String := config.getHost ++ ":" ++ toString config.getPort

end Config

end Tiberius
