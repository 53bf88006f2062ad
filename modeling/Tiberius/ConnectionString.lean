import Mathlib.Data.List.DropRight
import Tiberius.AdoJoin
import Tiberius.Config

/-!
Configurations from connection strings. What a string says is read from its pairs,
one setting after the other, and handed to the setters of a new configuration. The
setters for certificates panic where they contradict each other, so a string that
does is refused in front of them.
-/

namespace Tiberius

/-- The server that a connection string names. -/
structure ServerDefinition where
  host : Option String
  port : Option UInt16
  instanceName : Option String
  deriving DecidableEq, Repr

/-- A connection string that is taken apart. Its keys and values are ASCII. -/
structure ConfigString where
  dict : String → Option String
  server : Except Fault ServerDefinition

/-- What a lookup or a setting gives, where it can only fail. -/
def Fault.lift {α : Type} (result : Except Error α) : Except Fault α := result.mapError Fault.error

namespace ConfigString

/-- `char::is_whitespace`, of an ASCII character. -/
def isWhitespace (c : Char) : Bool := c = ' ' || ('\t' ≤ c && c ≤ '\r')

/-- `str::trim`. -/
def trim (text : List Char) : List Char :=
  (text.dropWhile isWhitespace).rdropWhile isWhitespace

/-- `str::eq_ignore_ascii_case`. -/
def eqIgnoreAsciiCase (text other : List Char) : Bool :=
  text.map Char.toLower = other.map Char.toLower

def parseBool (v : String) : Except Error Bool :=
  let v := String.ofList ((trim v.toList).map Char.toLower)
  if v = "true" ∨ v = "yes" then .ok true
  else if v = "false" ∨ v = "no" then .ok false
  else .error (.conversion "Connection string: Not a valid boolean")

def isSspiOrTruthy (v : String) : Except Error Bool :=
  if eqIgnoreAsciiCase v.toList "sspi".toList then .ok true else parseBool v

/-- The value of the first of some keys that a string has. -/
def get (s : ConfigString) (keys : List String) : Option String := keys.findSome? s.dict

def userKeys : List String := ["uid", "username", "user", "user id"]

def passwordKeys : List String := ["password", "pwd"]

def integratedKeys : List String := ["integratedsecurity", "integrated security"]

/-- The method for integrated security, which the value of its key can turn down. -/
def authentication (features : Features) (s : ConfigString) : Except Error AuthMethod :=
  let user := s.get userKeys
  let pw := s.get passwordKeys
  let sqlServer := AuthMethod.sqlServer (user.getD "") (pw.getD "")
  let windows := AuthMethod.ofWindows (user.getD "") (pw.getD "")
  let either := if user.isNone && pw.isNone then AuthMethod.integrated else windows
  let guarded (val : String) (auth : AuthMethod) : Except Error AuthMethod := do
    if ← isSspiOrTruthy val then .ok auth else .ok sqlServer
  match s.get integratedKeys, features.security with
  | some val, .winauth => guarded val either
  | some val, .sspiRs => guarded val windows
  | some val, .sspiRsGssapi => guarded val either
  | some val, .gssapi => guarded val .integrated
  | some _, .none => .ok sqlServer
  | none, _ => .ok sqlServer

def databaseKeys : List String := ["database", "initial catalog", "databasename"]

def database (s : ConfigString) : Option String := s.get databaseKeys

def applicationNameKeys : List String := ["application name", "applicationname"]

def applicationName (s : ConfigString) : Option String := s.get applicationNameKeys

/-- A setting that is off unless the string says otherwise. -/
def flag (s : ConfigString) (key : String) : Except Error Bool :=
  ((s.dict key).map parseBool).getD (.ok false)

def trustCert (s : ConfigString) : Except Error Bool := s.flag "trustservercertificate"

def trustCertCa (s : ConfigString) : Option String := s.dict "trustservercertificateca"

def hostnameKeys : List String := ["hostnameincertificate", "hostname in certificate"]

def hostnameInCertificate (s : ConfigString) : Option String := s.get hostnameKeys

def clientNameKeys : List String := ["workstationid", "workstation id"]

def clientName (s : ConfigString) : Option String := s.get clientNameKeys

def tlsBackendMissing : Error :=
  .tls ("encryption was requested (`encrypt=...`) but the crate was compiled without a TLS " ++
    "backend; enable one of the `native-tls`, `rustls` or `vendored-openssl` features.")

def plaintext : String := "DANGER_PLAINTEXT"

/-- With a TLS backend a connection is encrypted unless the string says otherwise,
without one it is not and cannot be asked to. -/
def encrypt (features : Features) (s : ConfigString) : Except Error EncryptionLevel :=
  match s.dict "encrypt", features.tls with
  | none, tls => .ok (if tls then .required else .notSupported)
  | some val, true =>
    match parseBool val with
    | .ok true => .ok .required
    | .ok false => .ok .off
    | .error e =>
      if val = plaintext then .ok .notSupported
      else if eqIgnoreAsciiCase val.toList "strict".toList then
        if features.tds80 then .ok .strict
        else .error
          (.conversion "encrypt=strict requires the crate's `tds80` feature to be enabled")
      else .error e
  | some val, false =>
    match parseBool val with
    | .ok false => .ok .notSupported
    | .ok true => .error tlsBackendMissing
    | .error e =>
      if val = plaintext then .ok .notSupported
      else if eqIgnoreAsciiCase val.toList "strict".toList then .error tlsBackendMissing
      else .error e

def readonly (s : ConfigString) : Bool :=
  ((s.dict "applicationintent").filter fun val =>
    eqIgnoreAsciiCase (trim val.toList) "ReadOnly".toList).isSome

def multiSubnetFailover (s : ConfigString) : Except Error Bool := s.flag "multisubnetfailover"

end ConfigString

namespace AdoNetConfig

/-- `str::replace`, of a pattern that is not empty; the symbols that belong to one that
was found are skipped. -/
def replaceFrom (pattern by_ : List Char) : ℕ → List Char → List Char
  | _, [] => []
  | skip + 1, _ :: rest => replaceFrom pattern by_ skip rest
  | 0, c :: rest =>
    if pattern.isPrefixOf (c :: rest) then
      by_ ++ replaceFrom pattern by_ (pattern.length - 1) rest
    else c :: replaceFrom pattern by_ 0 rest

/-- The local server by its other name. -/
def localhost (host : List Char) : String :=
  String.ofList (replaceFrom "(local)".toList "localhost".toList 0 host)

/-- `parts[i]`. -/
def part (parts : List (List Char)) (i : ℕ) : Except Fault (List Char) :=
  match parts[i]? with
  | some part => .ok part
  | none => .error .panic

def parsePort (parts : List (List Char)) : Except Fault (Option UInt16) :=
  match parts.head? with
  | some s =>
    match parseUnsigned 16 s with
    | .ok port => .ok (some (UInt16.ofNat port))
    | .error error => .error (.error (.parseInt error))
  | none => .ok none

def parseServer (parts : List (List Char)) : Except Fault ServerDefinition := do
  if parts = [] ∨ 3 ≤ parts.length then
    .error (.error (.conversion "Server value faulty."))
  else
    let target ← part parts 0
    if '\\' ∈ target then
      let port ← parsePort (parts.drop 1)
      let parts := target.splitOn '\\'
      let host ← part parts 0
      let instanceName ← part parts 1
      .ok
        { host := some (localhost host)
          port := port
          instanceName := some (String.ofList instanceName) }
    else
      let port ← parsePort (parts.drop 1)
      .ok { host := some (localhost target), port := port, instanceName := none }

def tcp : List Char := "tcp:".toList

def serverKeys : List String := ["server", "data source"]

/-- The server by its name or address, behind the protocol or not. -/
def server (dict : String → Option String) : Except Fault ServerDefinition :=
  match serverKeys.findSome? dict with
  | some value =>
    if tcp.isPrefixOf value.toList then parseServer ((value.toList.drop 4).splitOn ',')
    else parseServer (value.toList.splitOn ',')
  | none => .ok { host := none, port := none, instanceName := none }

def hintedConversionError (detail quoting docs : String) : Error :=
  .conversion (detail ++ ". hint: if a value such as a password contains a special " ++
    "character (for example `;`, `=` or `\x7b`), it must be quoted — " ++ quoting ++
    ". Do not URL-encode the value (`%24` is sent literally, not decoded to `$`). " ++
    "Non-ASCII values are not accepted by the connection-string parser; build the `Config` " ++
    "programmatically (see `" ++ docs ++ "`) to pass any value without escaping.")

/-- `AdoNetConfig::from_str`. -/
def fromStr (s : String) : Except Fault ConfigString :=
  match AdoParser.parse s with
  | .ok dict => .ok { dict := dict.pairs, server := server dict.pairs }
  | .error (.error reason) =>
    .error (.error (hintedConversionError reason
      ("wrap the value in single quotes (e.g. `password='p@ss;word'`), double quotes, or " ++
        "braces (e.g. `password=\x7bp@ss;word\x7d`), and quote leading spaces too")
      "Config::from_ado_string"))
  | .error _ => .error .panic

end AdoNetConfig

namespace Config

/-- A setter that is called for a setting there is. -/
def callSome {α : Type} (config : Config) (setter : α → ConfigCall) :
    Option α → Except Fault Config
  | some value => config.call (setter value)
  | none => .ok config

/-- A setter that is called on a condition. -/
def callIf (config : Config) (condition : Bool) (setter : ConfigCall) : Except Fault Config :=
  if condition then config.call setter else .ok config

def contradiction : Error :=
  .conversion ("'TrustServerCertificate' and 'TrustServerCertificateCA' are " ++
    "mutually exclusive; specify only one")

def fromConfigString (features : Features) (s : ConfigString) : Except Fault Config := do
  let server ← s.server
  let builder ← (new features).callSome .host server.host
  let builder ← builder.callSome .port server.port
  let builder ← builder.callSome .instanceName server.instanceName
  let auth ← Fault.lift (s.authentication features)
  let builder ← builder.call (.authentication auth)
  let builder ← builder.callSome .database s.database
  let builder ← builder.callSome .applicationName s.applicationName
  let trustCert ← Fault.lift s.trustCert
  let trustCertCa := s.trustCertCa
  if trustCert && trustCertCa.isSome then
    .error (.error contradiction)
  else
    let builder ← builder.callIf trustCert .trustCert
    let builder ← builder.callSome .trustCertCa trustCertCa
    let builder ← builder.callSome .hostnameInCertificate s.hostnameInCertificate
    let encryption ← Fault.lift (s.encrypt features)
    let builder ← builder.call (.encryption encryption)
    let builder ← builder.call (.readonly s.readonly)
    let builder ← builder.callSome .clientName s.clientName
    let failover ← Fault.lift s.multiSubnetFailover
    builder.call (.multiSubnetFailover failover)

/-- `Config::from_ado_string`. -/
def fromAdoString (features : Features) (s : String) : Except Fault Config := do
  let ado ← AdoNetConfig.fromStr s
  fromConfigString features ado

end Config

section Results

variable {ε α β : Type}

@[simp] theorem Except.ok_bind (value : α) (next : α → Except ε β) :
    (Except.ok value : Except ε α) >>= next = next value := rfl

theorem Except.of_bind_ok {first : Except ε α} {next : α → Except ε β} {value : β}
    (hbind : first >>= next = .ok value) : ∃ found, first = .ok found ∧ next found = .ok value := by
  cases first with
  | error error => simp [Bind.bind, Except.bind] at hbind
  | ok found => exact ⟨found, rfl, hbind⟩

theorem Except.bind_ne_error {first : Except ε α} {next : α → Except ε β} {error : ε}
    (hfirst : first ≠ .error error) (hnext : ∀ found, next found ≠ .error error) :
    first >>= next ≠ .error error := by
  cases first with
  | error other => simpa [Bind.bind, Except.bind] using hfirst
  | ok found => exact hnext found

@[simp] theorem Fault.lift_ok (value : α) : Fault.lift (.ok value) = .ok value := rfl

theorem Fault.lift_eq_ok {result : Except Error α} {value : α} :
    Fault.lift result = .ok value ↔ result = .ok value := by
  cases result <;> simp [Fault.lift, Except.mapError]

theorem Fault.lift_ne_panic (result : Except Error α) : Fault.lift result ≠ .error .panic := by
  cases result <;> simp [Fault.lift, Except.mapError]

end Results

namespace Config

/-- What a connection string says of the configuration that is built from it. -/
structure Described (features : Features) (s : ConfigString) (config : Config) : Prop where
  server : s.server = .ok
    { host := config.host, port := config.port, instanceName := config.instanceName }
  auth : s.authentication features = .ok config.auth
  database : config.database = s.database
  applicationName : config.applicationName = s.applicationName
  bypass : s.trustCert = .ok config.trust.bypass
  source : config.trust.source = .native
  extraCas : config.trust.extraCas = s.trustCertCa.toList.map .file
  consistent : config.trust.bypass = true → s.trustCertCa = none
  hostnameInCertificate : config.hostnameInCertificate = s.hostnameInCertificate
  encryption : s.encrypt features = .ok config.encryption
  readonly : config.readonly = s.readonly
  clientName : config.clientName = s.clientName
  multiSubnetFailover : s.multiSubnetFailover = .ok config.multiSubnetFailover
  packetSize : config.packetSize = none
  handshakeTimeout : config.handshakeTimeout = some defaultHandshakeTimeout
  commandTimeout : config.commandTimeout = some defaultCommandTimeout
  lossyUtf16Decoding : config.lossyUtf16Decoding = false
  lossyCodepageDecoding : config.lossyCodepageDecoding = false

variable {features : Features} {s : ConfigString}

section Setters

variable (config : Config)

@[simp] theorem callSome_host (host : Option String) :
    config.callSome .host host = .ok { config with host := host.or config.host } := by
  cases host <;> rfl

@[simp] theorem callSome_port (port : Option UInt16) :
    config.callSome .port port = .ok { config with port := port.or config.port } := by
  cases port <;> rfl

@[simp] theorem callSome_instanceName (name : Option String) :
    config.callSome .instanceName name =
      .ok { config with instanceName := name.or config.instanceName } := by
  cases name <;> rfl

@[simp] theorem callSome_database (database : Option String) :
    config.callSome .database database =
      .ok { config with database := database.or config.database } := by
  cases database <;> rfl

@[simp] theorem callSome_applicationName (name : Option String) :
    config.callSome .applicationName name =
      .ok { config with applicationName := name.or config.applicationName } := by
  cases name <;> rfl

@[simp] theorem callSome_hostnameInCertificate (hostname : Option String) :
    config.callSome .hostnameInCertificate hostname =
      .ok { config with hostnameInCertificate := hostname.or config.hostnameInCertificate } := by
  cases hostname <;> rfl

@[simp] theorem callSome_clientName (name : Option String) :
    config.callSome .clientName name =
      .ok { config with clientName := name.or config.clientName } := by
  cases name <;> rfl

theorem callIf_trustCert (hdefault : config.trust = .default) (trust : Bool) :
    config.callIf trust .trustCert =
      .ok { config with trust := { TrustConfig.default with bypass := trust } } := by
  cases trust with
  | false =>
    rw [show { TrustConfig.default with bypass := false } = config.trust from hdefault.symm]
    rfl
  | true => simp [callIf, call, trustCert, hdefault, TrustConfig.default]

/-- Certificates can be named as long as they are looked at. -/
theorem callSome_trustCertCa (path : Option String)
    (hbypass : config.trust.bypass = true → path = none) :
    config.callSome .trustCertCa path = .ok
      { config with
        trust :=
          { config.trust with
            extraCas := config.trust.extraCas ++ path.toList.map .file } } := by
  cases path with
  | none => simp [callSome]
  | some path =>
    have hlooked : config.trust.bypass = false := by
      by_contra hbypassed
      exact absurd (hbypass (by simpa using hbypassed)) (by simp)
    simp [callSome, call, trustCertCa, pushCa, hlooked]

end Setters

/-- Where all of a string can be read, it is a configuration. -/
theorem fromConfigString_ok {server : ServerDefinition} {auth : AuthMethod} {trust failover : Bool}
    {level : EncryptionLevel} (hserver : s.server = .ok server)
    (hauth : s.authentication features = .ok auth) (htrust : s.trustCert = .ok trust)
    (hconsistent : trust = true → s.trustCertCa = none) (hlevel : s.encrypt features = .ok level)
    (hfailover : s.multiSubnetFailover = .ok failover) :
    fromConfigString features s = .ok
      { new features with
        host := server.host
        port := server.port
        instanceName := server.instanceName
        auth := auth
        database := s.database
        applicationName := s.applicationName
        trust :=
          { source := .native, extraCas := s.trustCertCa.toList.map .file, bypass := trust }
        hostnameInCertificate := s.hostnameInCertificate
        encryption := level
        readonly := s.readonly
        clientName := s.clientName
        multiSubnetFailover := failover } := by
  have hrefused : ¬(trust && s.trustCertCa.isSome) = true := by
    cases trust with
    | false => simp
    | true => simp [hconsistent rfl]
  unfold fromConfigString
  rw [hserver, hauth, htrust, hlevel, hfailover]
  simp only [call, Except.ok_bind, Fault.lift_ok, callSome_host, callSome_port,
    callSome_instanceName, callSome_database, callSome_applicationName, if_neg hrefused]
  rw [callIf_trustCert _ rfl, Except.ok_bind, callSome_trustCertCa _ _ hconsistent]
  simp [new, TrustConfig.default]

/-- A configuration from a connection string is what the string says. -/
theorem described_of_fromConfigString {config : Config}
    (hconfig : fromConfigString features s = .ok config) : Described features s config := by
  have hwhole := hconfig
  obtain ⟨server, hserver, hconfig⟩ := Except.of_bind_ok hconfig
  obtain ⟨_, -, hconfig⟩ := Except.of_bind_ok hconfig
  obtain ⟨_, -, hconfig⟩ := Except.of_bind_ok hconfig
  obtain ⟨_, -, hconfig⟩ := Except.of_bind_ok hconfig
  obtain ⟨auth, hauth, hconfig⟩ := Except.of_bind_ok hconfig
  obtain ⟨_, -, hconfig⟩ := Except.of_bind_ok hconfig
  obtain ⟨_, -, hconfig⟩ := Except.of_bind_ok hconfig
  obtain ⟨_, -, hconfig⟩ := Except.of_bind_ok hconfig
  obtain ⟨trust, htrust, hconfig⟩ := Except.of_bind_ok hconfig
  have hconsistent : trust = true → s.trustCertCa = none := by
    rintro rfl
    by_contra hca
    rw [if_pos (by simp [Option.isSome_iff_ne_none, hca])] at hconfig
    simp at hconfig
  rw [if_neg (by cases trust <;> simp_all)] at hconfig
  obtain ⟨_, -, hconfig⟩ := Except.of_bind_ok hconfig
  obtain ⟨_, -, hconfig⟩ := Except.of_bind_ok hconfig
  obtain ⟨_, -, hconfig⟩ := Except.of_bind_ok hconfig
  obtain ⟨level, hlevel, hconfig⟩ := Except.of_bind_ok hconfig
  obtain ⟨_, -, hconfig⟩ := Except.of_bind_ok hconfig
  obtain ⟨_, -, hconfig⟩ := Except.of_bind_ok hconfig
  obtain ⟨_, -, hconfig⟩ := Except.of_bind_ok hconfig
  obtain ⟨failover, hfailover, -⟩ := Except.of_bind_ok hconfig
  rw [Fault.lift_eq_ok] at hauth htrust hlevel hfailover
  rw [fromConfigString_ok hserver hauth htrust hconsistent hlevel hfailover] at hwhole
  cases hwhole
  exact ⟨hserver, hauth, rfl, rfl, htrust, rfl, rfl, hconsistent, rfl, hlevel, rfl, rfl, hfailover,
    rfl, rfl, rfl, rfl, rfl⟩

/-- No connection string makes a setter panic. -/
theorem fromConfigString_ne_panic (hserver : s.server ≠ .error .panic) :
    fromConfigString features s ≠ .error .panic := by
  unfold fromConfigString
  refine Except.bind_ne_error hserver fun server => ?_
  simp only [callSome_host, callSome_port, callSome_instanceName, Except.ok_bind]
  refine Except.bind_ne_error (Fault.lift_ne_panic _) fun auth => ?_
  simp only [call, callSome_database, callSome_applicationName, Except.ok_bind]
  refine Except.bind_ne_error (Fault.lift_ne_panic _) fun trust => ?_
  by_cases hrefused : (trust && s.trustCertCa.isSome) = true
  · simp [hrefused]
  · have hconsistent : trust = true → s.trustCertCa = none := by
      rintro rfl
      simpa using hrefused
    rw [if_neg hrefused, callIf_trustCert _ rfl, Except.ok_bind,
      callSome_trustCertCa _ _ hconsistent]
    simp only [callSome_hostnameInCertificate, Except.ok_bind]
    refine Except.bind_ne_error (Fault.lift_ne_panic _) fun level => ?_
    simp only [callSome_clientName, Except.ok_bind]
    exact Except.bind_ne_error (Fault.lift_ne_panic _) fun failover => by simp

end Config

namespace AdoNetConfig

theorem two_le_length_splitOn {c : Char} {text : List Char} (hc : c ∈ text) :
    2 ≤ (text.splitOn c).length := by
  obtain ⟨front, back, rfl⟩ := List.append_of_mem hc
  have hfront := List.length_pos_of_ne_nil (List.splitOn_ne_nil c front)
  have hback := List.length_pos_of_ne_nil (List.splitOn_ne_nil c back)
  rw [List.splitOn_append_cons_self, List.length_append]
  omega

theorem part_of_lt {parts : List (List Char)} {i : ℕ} (hi : i < parts.length) :
    part parts i = .ok parts[i] := by
  simp [part, hi]

/-- The indices into the parts of a server are in range. -/
theorem parseServer_ne_panic (parts : List (List Char)) : parseServer parts ≠ .error .panic := by
  have hport : parsePort (parts.drop 1) ≠ .error .panic := by
    unfold parsePort
    split
    · split <;> simp
    · simp
  unfold parseServer
  by_cases hfaulty : parts = [] ∨ 3 ≤ parts.length
  · simp [hfaulty]
  · rw [if_neg hfaulty]
    rw [not_or] at hfaulty
    obtain ⟨target, more, rfl⟩ := List.exists_cons_of_ne_nil hfaulty.1
    have hfirst : part (target :: more) 0 = .ok target := part_of_lt (Nat.zero_lt_succ _)
    rw [hfirst, Except.ok_bind]
    by_cases hslash : '\\' ∈ target
    · rw [if_pos hslash]
      have hparts := two_le_length_splitOn hslash
      refine Except.bind_ne_error hport fun port => ?_
      simp [part_of_lt (Nat.zero_lt_of_lt hparts), part_of_lt hparts]
    · rw [if_neg hslash]
      exact Except.bind_ne_error hport fun port => by simp

theorem server_ne_panic (dict : String → Option String) : server dict ≠ .error .panic := by
  unfold server
  split
  · split <;> apply parseServer_ne_panic
  · simp

/-- What is parsed from a text is its pairs. -/
theorem fromStr_eq (text : String) :
    (∃ dict, AdoParser.parse text = .ok dict ∧
      fromStr text = .ok { dict := dict.pairs, server := server dict.pairs }) ∨
    ∃ reason, AdoParser.parse text = .error (.error reason) ∧
      ∃ error, fromStr text = .error (.error error) := by
  obtain ⟨dict, hparse⟩ | ⟨reason, hparse⟩ := AdoParser.parse_settles text
  · exact .inl ⟨dict, hparse, by simp [fromStr, hparse]⟩
  · exact .inr ⟨reason, hparse, _, by rw [fromStr, hparse]⟩

end AdoNetConfig

namespace Config

variable {features : Features}

theorem fromAdoString_ne_panic (text : String) : fromAdoString features text ≠ .error .panic := by
  unfold fromAdoString
  obtain ⟨dict, -, hread⟩ | ⟨reason, -, error, hread⟩ := AdoNetConfig.fromStr_eq text
  · rw [hread, Except.ok_bind]
    exact fromConfigString_ne_panic (AdoNetConfig.server_ne_panic dict.pairs)
  · rw [hread]
    simp [Bind.bind, Except.bind]

/-- The pairs of a text, with the server they name. -/
def AdoPairs (text : String) (s : ConfigString) : Prop :=
  ∃ dict, AdoParser.parse text = .ok dict ∧
    s = { dict := dict.pairs, server := AdoNetConfig.server dict.pairs }

theorem fromAdoString_of_pairs {text : String} {s : ConfigString} (hpairs : AdoPairs text s) :
    fromAdoString features text = fromConfigString features s := by
  obtain ⟨dict, hparse, rfl⟩ := hpairs
  simp [fromAdoString, AdoNetConfig.fromStr, hparse]

theorem described_of_fromAdoString {text : String} {config : Config}
    (hconfig : fromAdoString features text = .ok config) :
    ∃ s, AdoPairs text s ∧ Described features s config := by
  obtain ⟨s, hread, hbuilt⟩ := Except.of_bind_ok hconfig
  obtain ⟨dict, hparse, hok⟩ | ⟨reason, -, error, herror⟩ := AdoNetConfig.fromStr_eq text
  · rw [hok] at hread
    cases hread
    exact ⟨_, ⟨dict, hparse, rfl⟩, described_of_fromConfigString hbuilt⟩
  · rw [herror] at hread
    cases hread

end Config

end Tiberius
