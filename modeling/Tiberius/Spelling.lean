import Tiberius.AdoSettings
import Tiberius.ConnectionString
import Tiberius.SqlBrowser

/-!
The configurations that connection strings can say, and how they are written. A keyword
has several keys and its values several forms, but whichever are taken, in whatever
order and between whatever other settings, the configuration is read back.
-/

namespace Tiberius

open AdoParser

/-- What a setting is about, whatever its key is called. -/
inductive Keyword where
  | server | user | password | integrated | database | applicationName | trustCert | trustCertCa
  | hostnameInCertificate | encrypt | intent | clientName | failover
  deriving DecidableEq

def Keyword.keys : Keyword → List String
  | server => AdoNetConfig.serverKeys
  | user => ConfigString.userKeys
  | password => ConfigString.passwordKeys
  | integrated => ConfigString.integratedKeys
  | database => ConfigString.databaseKeys
  | applicationName => ConfigString.applicationNameKeys
  | trustCert => ["trustservercertificate"]
  | trustCertCa => ["trustservercertificateca"]
  | hostnameInCertificate => ConfigString.hostnameKeys
  | encrypt => ["encrypt"]
  | intent => ["applicationintent"]
  | clientName => ConfigString.clientNameKeys
  | failover => ["multisubnetfailover"]

/-- A choice among the keys and the forms of the values. -/
structure Spelling where
  key : Keyword → String
  yes : String
  no : String
  sspi : String
  tcp : Bool
  key_mem : ∀ keyword, key keyword ∈ keyword.keys
  yes_reads : ConfigString.parseBool yes = .ok true
  no_reads : ConfigString.parseBool no = .ok false
  sspi_reads : ConfigString.isSspiOrTruthy sspi = .ok true

namespace Spelling

/-- A host, its instance and its port, as the server of a connection string. -/
def address (spelling : Spelling) (host : String) (instanceName : Option String)
    (port : Option UInt16) : List Char :=
  (if spelling.tcp then AdoNetConfig.tcp else []) ++
    (host.toList ++ (instanceName.elim [] fun name => '\\' :: name.toList) ++
      (port.elim [] fun port => ',' :: Nat.toDigits 10 port.toNat))

end Spelling

/-- The name of an account, in its domain or not. -/
def WindowsAuth.account (auth : WindowsAuth) : String :=
  auth.domain.elim auth.user fun domain =>
    String.ofList (domain.toList ++ '\\' :: auth.user.toList)

namespace Config

/-- What a connection string has to say about a keyword. -/
def spelled (spelling : Spelling) (config : Config) : Keyword → Option String
  | .server => config.host.map fun host =>
    String.ofList (spelling.address host config.instanceName config.port)
  | .user =>
    match config.auth with
    | .sqlServer user _ => some user
    | .windows auth => some auth.account
    | _ => none
  | .password =>
    match config.auth with
    | .sqlServer _ password => some password
    | .windows auth => some auth.password
    | _ => none
  | .integrated =>
    match config.auth with
    | .windows _ => some spelling.sspi
    | .integrated => some spelling.sspi
    | _ => none
  | .database => config.database
  | .applicationName => config.applicationName
  | .trustCert => if config.trust.bypass then some spelling.yes else none
  | .trustCertCa =>
    match config.trust.extraCas with
    | [.file path] => some path
    | _ => none
  | .hostnameInCertificate => config.hostnameInCertificate
  | .encrypt =>
    match config.encryption with
    | .off => some spelling.no
    | .notSupported => some ConfigString.plaintext
    | .strict => some "strict"
    | _ => some spelling.yes
  | .intent => if config.readonly then some "ReadOnly" else none
  | .clientName => config.clientName
  | .failover => if config.multiSubnetFailover then some spelling.yes else none

/-- A name between the separators of a server. -/
def Plain (name : String) : Prop := ',' ∉ name.toList ∧ '\\' ∉ name.toList

/-- A server that can be named. -/
structure SayableServer (server : ServerDefinition) : Prop where
  unnamed : server.host = none → server.instanceName = none ∧ server.port = none
  host : ∀ host ∈ server.host, Plain host ∧ ¬"(local)".toList <:+: host.toList
  instanceName : ∀ name ∈ server.instanceName, Plain name

/-- An account in a domain is told from one without by its first backslash. -/
def SayableAccount (auth : WindowsAuth) : Prop :=
  match auth.domain with
  | some domain => '\\' ∉ domain.toList
  | none => '\\' ∉ auth.user.toList

def SayableAuth (security : Security) : AuthMethod → Prop
  | .sqlServer _ _ => True
  | .windows auth =>
    SayableAccount auth ∧
      (security = .winauth ∨ security = .sspiRs ∨ security = .sspiRsGssapi)
  | .integrated => security = .winauth ∨ security = .gssapi ∨ security = .sspiRsGssapi
  | _ => False

def SayableLevel (features : Features) : EncryptionLevel → Prop
  | .required => features.tls = true
  | .off => features.tls = true
  | .strict => features.tls = true ∧ features.tds80 = true
  | .notSupported => True
  | .on => False

def SayableTrust (trust : TrustConfig) : Prop :=
  trust.source = .native ∧
    (trust.extraCas = [] ∨ trust.bypass = false ∧ ∃ path, trust.extraCas = [.file path])

/-- A configuration that some connection string says. -/
structure Sayable (features : Features) (config : Config) : Prop where
  server : SayableServer
    { host := config.host, port := config.port, instanceName := config.instanceName }
  auth : SayableAuth features.security config.auth
  trust : SayableTrust config.trust
  encryption : SayableLevel features config.encryption
  packetSize : config.packetSize = none
  handshakeTimeout : config.handshakeTimeout = some defaultHandshakeTimeout
  commandTimeout : config.commandTimeout = some defaultCommandTimeout
  lossyUtf16Decoding : config.lossyUtf16Decoding = false
  lossyCodepageDecoding : config.lossyCodepageDecoding = false

/-- What a connection string says nothing about is as in a new configuration. -/
theorem Sayable.untouched {features : Features} {config : Config}
    (hsayable : Sayable features config) :
    { config with
      packetSize := none
      handshakeTimeout := some defaultHandshakeTimeout
      commandTimeout := some defaultCommandTimeout
      lossyUtf16Decoding := false
      lossyCodepageDecoding := false } = config := by
  obtain ⟨-, -, -, -, hpacket, hhandshake, hcommand, hutf16, hcodepage⟩ := hsayable
  cases config
  simp_all

/-- Pairs that say of each keyword what a configuration needs, under one of its keys. -/
def Spells (spelling : Spelling) (config : Config) (dict : String → Option String) : Prop :=
  ∀ keyword : Keyword, ∀ key ∈ keyword.keys,
    dict key = if key = spelling.key keyword then config.spelled spelling keyword else none

theorem Spells.get {spelling : Spelling} {config : Config} {dict : String → Option String}
    (hspells : Spells spelling config dict) (keyword : Keyword) :
    keyword.keys.findSome? dict = config.spelled spelling keyword := by
  have hother : ∀ key ∈ keyword.keys, key ≠ spelling.key keyword → dict key = none := by
    intro key hkey hne
    rw [hspells keyword key hkey, if_neg hne]
  have hthis : dict (spelling.key keyword) = config.spelled spelling keyword := by
    rw [hspells keyword _ (spelling.key_mem keyword), if_pos rfl]
  have hmem := spelling.key_mem keyword
  generalize keyword.keys = keys at hmem hother
  induction keys with
  | nil => simp at hmem
  | cons key keys ih =>
    rw [List.findSome?_cons]
    by_cases hkey : key = spelling.key keyword
    · subst hkey
      rw [hthis]
      cases hvalue : config.spelled spelling keyword with
      | some value => rfl
      | none =>
        rw [List.findSome?_eq_none_iff]
        intro other hmore
        by_cases hsame : other = spelling.key keyword
        · rw [hsame, hthis, hvalue]
        · exact hother other (List.mem_cons_of_mem _ hmore) hsame
    · rw [hother key List.mem_cons_self hkey]
      have hmore : spelling.key keyword ∈ keys := by
        simpa [Ne.symm hkey] using hmem
      exact ih hmore fun other hin => hother other (List.mem_cons_of_mem _ hin)

end Config

namespace AdoNetConfig

theorem replaceFrom_of_not_infix {pattern by_ text : List Char} (hnone : ¬pattern <:+: text) :
    replaceFrom pattern by_ 0 text = text := by
  induction text with
  | nil => rfl
  | cons c rest ih =>
    have hfront : pattern.isPrefixOf (c :: rest) = false := by
      by_contra hfront
      exact hnone (List.isPrefixOf_iff_prefix.mp (by simpa using hfront)).isInfix
    have hmore : ¬pattern <:+: rest := fun hmore =>
      hnone (hmore.trans (List.suffix_cons c rest).isInfix)
    simp [replaceFrom, hfront, ih hmore]

theorem localhost_of_not_infix {host : List Char} (hnone : ¬"(local)".toList <:+: host) :
    localhost host = String.ofList host := by
  rw [localhost, replaceFrom_of_not_infix hnone]

theorem parsePort_toDigits (port : UInt16) :
    parsePort [Nat.toDigits 10 port.toNat] = .ok (some port) := by
  have hport : parseUnsigned 16 (Nat.toDigits 10 port.toNat) = .ok port.toNat := by
    rw [parseUnsigned_eq_ok_iff]
    exact ⟨_, DecimalText.natural_toDigits _, port.toNat_lt, .inl rfl⟩
  simp [parsePort, hport]

theorem not_mem_toDigits {c : Char} (hc : c.isDigit = false) (n : ℕ) : c ∉ Nat.toDigits 10 n := by
  intro hmem
  simp [DecimalText.isDigit_of_mem_toDigits hmem] at hc

/-- The parts of a server, whose port is behind a comma. -/
theorem splitOn_target {target : List Char} (htarget : ',' ∉ target) (port : Option UInt16) :
    (target ++ port.elim [] fun port => ',' :: Nat.toDigits 10 port.toNat).splitOn ',' =
      target :: (port.map fun port => Nat.toDigits 10 port.toNat).toList := by
  cases port with
  | none => simp [List.splitOn_eq_singleton htarget]
  | some port =>
    have hdigits : ',' ∉ Nat.toDigits 10 port.toNat := not_mem_toDigits rfl _
    simp [List.splitOn_append_cons_self_of_not_mem htarget, List.splitOn_eq_singleton hdigits]

/-- A server without an instance. -/
theorem parseServer_host {target : List Char} (htarget : '\\' ∉ target) (port : Option UInt16) :
    parseServer (target :: (port.map fun port => Nat.toDigits 10 port.toNat).toList) =
      .ok { host := some (localhost target), port := port, instanceName := none } := by
  cases port with
  | none => simp [parseServer, part, parsePort, htarget]
  | some port => simp [parseServer, part, parsePort_toDigits, htarget]

/-- A server with an instance behind a backslash. -/
theorem parseServer_instance {host name : List Char} (hhost : '\\' ∉ host) (hname : '\\' ∉ name)
    (port : Option UInt16) :
    parseServer ((host ++ '\\' :: name) ::
        (port.map fun port => Nat.toDigits 10 port.toNat).toList) = .ok
      { host := some (localhost host)
        port := port
        instanceName := some (String.ofList name) } := by
  have hparts : (host ++ '\\' :: name).splitOn '\\' = [host, name] := by
    rw [List.splitOn_append_cons_self_of_not_mem hhost, List.splitOn_eq_singleton hname]
  cases port with
  | none => simp [parseServer, part, parsePort, hparts]
  | some port => simp [parseServer, part, parsePort_toDigits, hparts]

theorem parseServer_address {host : String} {instanceName : Option String}
    (hhost : Config.Plain host) (hlocal : ¬"(local)".toList <:+: host.toList)
    (hname : ∀ name ∈ instanceName, Config.Plain name) (port : Option UInt16) :
    parseServer ((host.toList ++ (instanceName.elim [] fun name => '\\' :: name.toList) ++
      port.elim [] fun port => ',' :: Nat.toDigits 10 port.toNat).splitOn ',') =
        .ok { host := some host, port := port, instanceName := instanceName } := by
  cases instanceName with
  | none =>
    rw [Option.elim_none, List.append_nil, splitOn_target hhost.1, parseServer_host hhost.2,
      localhost_of_not_infix hlocal, String.ofList_toList]
  | some name =>
    have hplain := hname name rfl
    have htarget : ',' ∉ host.toList ++ '\\' :: name.toList := by
      simp [hhost.1, hplain.1]
    rw [Option.elim_some, splitOn_target htarget, parseServer_instance hhost.2 hplain.2,
      localhost_of_not_infix hlocal, String.ofList_toList, String.ofList_toList]

end AdoNetConfig

namespace Config

section Spelled

variable {features : Features} {spelling : Spelling} {config : Config} {s : ConfigString}

/-- The server behind a protocol, or what cannot be taken for one. -/
def Unmistaken (spelling : Spelling) (config : Config) : Prop :=
  spelling.tcp = true ∨ ∀ host ∈ config.host,
    ¬AdoNetConfig.tcp <+: spelling.address host config.instanceName config.port

theorem server_spelled (hspells : Spells spelling config s.dict)
    (hserver : SayableServer
      { host := config.host, port := config.port, instanceName := config.instanceName })
    (htcp : Unmistaken spelling config) :
    AdoNetConfig.server s.dict = .ok
      { host := config.host, port := config.port, instanceName := config.instanceName } := by
  have hget : AdoNetConfig.serverKeys.findSome? s.dict = config.spelled spelling .server :=
    hspells.get .server
  unfold AdoNetConfig.server
  rw [hget, spelled]
  cases hhost : config.host with
  | none =>
    have hname : config.instanceName = none := (hserver.unnamed hhost).1
    have hport : config.port = none := (hserver.unnamed hhost).2
    simp [hname, hport]
  | some host =>
    obtain ⟨hplain, hlocal⟩ := hserver.host host hhost
    have hparse := AdoNetConfig.parseServer_address hplain hlocal hserver.instanceName config.port
    simp only [Option.map_some, String.toList_ofList]
    cases htcp' : spelling.tcp with
    | true =>
      have hfront : AdoNetConfig.tcp.isPrefixOf
          (spelling.address host config.instanceName config.port) = true := by
        rw [List.isPrefixOf_iff_prefix, Spelling.address, htcp']
        exact List.prefix_append _ _
      rw [if_pos hfront, Spelling.address, htcp']
      exact hparse
    | false =>
      have hfront : AdoNetConfig.tcp.isPrefixOf
          (spelling.address host config.instanceName config.port) = false := by
        have hother := htcp.resolve_left (by simp [htcp']) host hhost
        rw [← Bool.not_eq_true, List.isPrefixOf_iff_prefix]
        exact hother
      rw [hfront, Spelling.address, htcp']
      exact hparse

theorem ofWindows_account {auth : WindowsAuth} (haccount : SayableAccount auth) :
    AuthMethod.ofWindows auth.account auth.password = .windows auth := by
  obtain ⟨user, password, domain⟩ := auth
  have hother : ∀ name : String, '\\' ∉ name.toList →
      ∀ c ∈ name.toList, (!decide (c = '\\')) = true := by
    intro name hname c hc
    have hne : c ≠ '\\' := fun hslash => hname (hslash ▸ hc)
    simpa using hne
  cases domain with
  | none =>
    have hdrop : user.toList.dropWhile (fun c => !decide (c = '\\')) = [] :=
      List.dropWhile_eq_nil_iff.mpr (hother user haccount)
    simp [AuthMethod.ofWindows, WindowsAuth.account, hdrop]
  | some domain =>
    have hall := hother domain haccount
    simp [AuthMethod.ofWindows, WindowsAuth.account, List.dropWhile_append_of_pos hall,
      List.takeWhile_append_of_pos hall]

theorem authentication_spelled (hspells : Spells spelling config s.dict)
    (hauth : SayableAuth features.security config.auth) :
    s.authentication features = .ok config.auth := by
  have huser : s.get ConfigString.userKeys = config.spelled spelling .user := hspells.get .user
  have hpassword : s.get ConfigString.passwordKeys = config.spelled spelling .password :=
    hspells.get .password
  have hintegrated : s.get ConfigString.integratedKeys = config.spelled spelling .integrated :=
    hspells.get .integrated
  cases heq : config.auth with
  | sqlServer user password =>
    simp [ConfigString.authentication, huser, hpassword, hintegrated, spelled, heq]
  | windows auth =>
    rw [heq] at hauth
    obtain ⟨haccount, hsecurity⟩ := hauth
    rcases hsecurity with hsecurity | hsecurity | hsecurity
    all_goals
      simp [ConfigString.authentication, huser, hpassword, hintegrated, spelled, heq, hsecurity,
        spelling.sspi_reads, ofWindows_account haccount]
  | integrated =>
    rw [heq] at hauth
    rcases hauth with hsecurity | hsecurity | hsecurity
    all_goals
      simp [ConfigString.authentication, huser, hpassword, hintegrated, spelled, heq, hsecurity,
        spelling.sspi_reads]
  | aadToken token =>
    rw [heq] at hauth
    exact hauth.elim
  | none =>
    rw [heq] at hauth
    exact hauth.elim

theorem flag_spelled (spelling : Spelling) {key : String} {value : Bool}
    (hvalue : s.dict key = if value then some spelling.yes else none) :
    s.flag key = .ok value := by
  cases value <;> simp [ConfigString.flag, hvalue, spelling.yes_reads]

theorem dict_spelled (hspells : Spells spelling config s.dict) (keyword : Keyword)
    {key : String} (hkeys : keyword.keys = [key]) :
    s.dict key = config.spelled spelling keyword := by
  have hget := hspells.get keyword
  rw [hkeys, List.findSome?_cons] at hget
  cases hdict : s.dict key <;> simpa [hdict] using hget

theorem encrypt_spelled (hspells : Spells spelling config s.dict)
    (hlevel : SayableLevel features config.encryption) :
    s.encrypt features = .ok config.encryption := by
  have hdict : s.dict "encrypt" = config.spelled spelling .encrypt := dict_spelled hspells _ rfl
  have hplain : ConfigString.parseBool ConfigString.plaintext =
      .error (.conversion "Connection string: Not a valid boolean") := by decide
  have hstrict : ConfigString.parseBool "strict" =
      .error (.conversion "Connection string: Not a valid boolean") := by decide
  cases heq : config.encryption with
  | off =>
    rw [heq] at hlevel
    have htls : features.tls = true := hlevel
    simp [ConfigString.encrypt, hdict, spelled, heq, htls, spelling.no_reads]
  | on =>
    rw [heq] at hlevel
    exact hlevel.elim
  | notSupported =>
    cases htls : features.tls <;>
      simp [ConfigString.encrypt, hdict, spelled, heq, htls, hplain]
  | required =>
    rw [heq] at hlevel
    have htls : features.tls = true := hlevel
    simp [ConfigString.encrypt, hdict, spelled, heq, htls, spelling.yes_reads]
  | strict =>
    rw [heq] at hlevel
    obtain ⟨htls, htds80⟩ := hlevel
    simp [ConfigString.encrypt, hdict, spelled, heq, htls, htds80, hstrict,
      ConfigString.plaintext, ConfigString.eqIgnoreAsciiCase]

theorem readonly_spelled (hspells : Spells spelling config s.dict) :
    s.readonly = config.readonly := by
  have hdict : s.dict "applicationintent" = config.spelled spelling .intent :=
    dict_spelled hspells _ rfl
  unfold ConfigString.readonly
  rw [hdict, spelled]
  cases config.readonly <;> rfl

theorem trustCertCa_spelled (hspells : Spells spelling config s.dict)
    (htrust : SayableTrust config.trust) :
    config.trust.extraCas = s.trustCertCa.toList.map .file ∧
      (config.trust.bypass = true → s.trustCertCa = none) := by
  have hdict : s.trustCertCa = config.spelled spelling .trustCertCa := dict_spelled hspells _ rfl
  rw [hdict, spelled]
  rcases htrust.2 with hnone | ⟨hbypass, path, hpath⟩
  · simp [hnone]
  · simp [hpath, hbypass]

/-- A configuration that is spelled out is built. -/
theorem fromConfigString_spelled (hsayable : Sayable features config)
    (hspells : Spells spelling config s.dict) (htcp : Unmistaken spelling config)
    (hserver : s.server = AdoNetConfig.server s.dict) :
    fromConfigString features s = .ok config := by
  have htrust : s.trustCert = .ok config.trust.bypass :=
    flag_spelled spelling (dict_spelled hspells .trustCert rfl)
  have hfailover : s.multiSubnetFailover = .ok config.multiSubnetFailover :=
    flag_spelled spelling (dict_spelled hspells .failover rfl)
  obtain ⟨hextra, hconsistent⟩ := trustCertCa_spelled hspells hsayable.trust
  have hdatabase : s.database = config.database := hspells.get .database
  have happlication : s.applicationName = config.applicationName := hspells.get .applicationName
  have hhostname : s.hostnameInCertificate = config.hostnameInCertificate :=
    hspells.get .hostnameInCertificate
  have hclient : s.clientName = config.clientName := hspells.get .clientName
  rw [fromConfigString_ok (hserver.trans (server_spelled hspells hsayable.server htcp))
    (authentication_spelled hspells hsayable.auth) htrust hconsistent
    (encrypt_spelled hspells hsayable.encryption) hfailover, hdatabase, happlication, hhostname,
    hclient, readonly_spelled hspells, ← hextra, ← hsayable.trust.1]
  exact congrArg Except.ok hsayable.untouched

/-- Settings that are legal and spell a configuration out are read as it, whichever keys
and forms they take, in whatever order and between whatever other settings. -/
theorem fromAdoString_render (hsayable : Sayable features config)
    (htcp : Unmistaken spelling config) {settings : List Setting}
    (hlegal : ∀ setting ∈ settings, setting.Legal)
    (hspells : Spells spelling config (lastOf (entries settings))) :
    fromAdoString features (render settings) = .ok config := by
  have hparse : AdoParser.parse (render settings) = .ok { pairs := lastOf (entries settings) } := by
    rw [parse_eq_ok, render, String.toList_ofList]
    exact ⟨isAscii_render hlegal, entries settings, pairsOf_render hlegal, rfl⟩
  rw [fromAdoString_of_pairs ⟨_, hparse, rfl⟩]
  exact fromConfigString_spelled hsayable hspells htcp rfl

end Spelled

end Config

namespace AdoNetConfig

section Parts

theorem of_mem_splitOn {c : Char} {text part : List Char} (hpart : part ∈ text.splitOn c) :
    c ∉ part ∧ part ⊆ text := by
  induction text generalizing part with
  | nil => simp_all
  | cons first rest ih =>
    rw [List.splitOn_cons_eq_if_modifyHead] at hpart
    by_cases hfirst : (first == c) = true
    · rw [if_pos hfirst, List.mem_cons] at hpart
      rcases hpart with rfl | hmore
      · simp
      · exact ⟨(ih hmore).1, List.subset_cons_of_subset first (ih hmore).2⟩
    · rw [if_neg hfirst] at hpart
      obtain ⟨front, parts, hparts⟩ := List.exists_cons_of_ne_nil (List.splitOn_ne_nil c rest)
      rw [hparts, List.modifyHead_cons, List.mem_cons] at hpart
      rcases hpart with rfl | hmore
      · have hfront := ih (hparts ▸ List.mem_cons_self)
        refine ⟨?_, List.cons_subset_cons first hfront.2⟩
        rw [List.mem_cons, not_or]
        exact ⟨fun hsame => hfirst (by simp [hsame]), hfront.1⟩
      · have hback := ih (hparts ▸ List.mem_cons_of_mem front hmore)
        exact ⟨hback.1, List.subset_cons_of_subset first hback.2⟩

variable {pattern by_ : List Char}

theorem not_mem_replaceFrom {c : Char} (hby : c ∉ by_) (skip : ℕ) {text : List Char}
    (htext : c ∉ text) : c ∉ replaceFrom pattern by_ skip text := by
  induction text generalizing skip with
  | nil => cases skip <;> simp [replaceFrom]
  | cons first rest ih =>
    have hrest : c ∉ rest := fun hc => htext (List.mem_cons_of_mem _ hc)
    cases skip with
    | succ skip => exact ih skip hrest
    | zero =>
      have hfirst : c ≠ first := fun hc => htext (hc ▸ List.mem_cons_self)
      unfold replaceFrom
      split
      · simp [hby, ih _ hrest]
      · simp [hfirst, ih _ hrest]

theorem infix_of_append {first : Char} {rest front back : List Char} (hfront : first ∉ front)
    (hfound : first :: rest <:+: front ++ back) : first :: rest <:+: back := by
  induction front with
  | nil => exact hfound
  | cons c front ih =>
    rw [List.mem_cons, not_or] at hfront
    rcases List.infix_cons_iff.mp hfound with hhead | hmore
    · exact absurd (List.cons_prefix_cons.mp hhead).1 hfront.1
    · exact ih hfront.2 hmore

/-- The end of the pattern does not come about behind what has been replaced. -/
theorem prefix_of_replaced {ending text : List Char} (hending : ending <:+ "local)".toList)
    (hhead : ending <+: replaceFrom "(local)".toList "localhost".toList 0 text) :
    ending <+: text := by
  induction text generalizing ending with
  | nil => exact hhead
  | cons c rest ih =>
    have hform : ending = [] ∨ ')' ∈ ending ∧ ending.length ≤ "localhost".toList.length := by
      have hall : ∀ ending ∈ "local)".toList.tails,
          ending = [] ∨ ')' ∈ ending ∧ ending.length ≤ "localhost".toList.length := by decide
      exact hall ending ((List.mem_tails _ _).mpr hending)
    rcases hform with rfl | ⟨hclose, hlength⟩
    · exact List.nil_prefix
    · unfold replaceFrom at hhead
      split at hhead
      · have hinside := List.prefix_of_prefix_length_le hhead (List.prefix_append _ _) hlength
        exact absurd (hinside.subset hclose) (by decide)
      · obtain ⟨first, more, rfl⟩ := List.exists_cons_of_ne_nil (List.ne_nil_of_mem hclose)
        obtain ⟨rfl, hmore⟩ := List.cons_prefix_cons.mp hhead
        exact List.cons_prefix_cons.mpr
          ⟨rfl, ih ((List.suffix_cons first more).trans hending) hmore⟩

theorem not_infix_replaced (skip : ℕ) (text : List Char) :
    ¬"(local)".toList <:+: replaceFrom "(local)".toList "localhost".toList skip text := by
  induction text generalizing skip with
  | nil =>
    have hnil : replaceFrom "(local)".toList "localhost".toList skip [] = [] := by
      cases skip <;> rfl
    rw [hnil]
    decide
  | cons c rest ih =>
    cases skip with
    | succ skip => exact ih skip
    | zero =>
      unfold replaceFrom
      split
      next =>
        intro hfound
        exact ih _ (infix_of_append (by decide) hfound)
      next hother =>
        intro hfound
        rcases List.infix_cons_iff.mp hfound with hhead | hmore
        · obtain ⟨rfl, htail⟩ := List.cons_prefix_cons.mp hhead
          have hrest := prefix_of_replaced List.suffix_rfl htail
          exact hother (List.isPrefixOf_iff_prefix.mpr (List.cons_prefix_cons.mpr ⟨rfl, hrest⟩))
        · exact ih 0 hmore

theorem localhost_sayable {host : List Char} (hcomma : ',' ∉ host) (hslash : '\\' ∉ host) :
    Config.Plain (localhost host) ∧ ¬"(local)".toList <:+: (localhost host).toList := by
  unfold localhost Config.Plain
  rw [String.toList_ofList]
  exact ⟨⟨not_mem_replaceFrom (by decide) 0 hcomma, not_mem_replaceFrom (by decide) 0 hslash⟩,
    not_infix_replaced 0 host⟩

theorem of_part {parts : List (List Char)} {i : ℕ} {found : List Char}
    (hpart : part parts i = .ok found) : found ∈ parts := by
  unfold part at hpart
  split at hpart
  next hfound =>
    cases hpart
    exact List.mem_of_getElem? hfound
  next => cases hpart

theorem parseServer_sayable {parts : List (List Char)} (hparts : ∀ part ∈ parts, ',' ∉ part)
    {server : ServerDefinition} (hserver : parseServer parts = .ok server) :
    Config.SayableServer server := by
  unfold parseServer at hserver
  split at hserver
  · cases hserver
  · obtain ⟨target, htarget, hserver⟩ := Except.of_bind_ok hserver
    have hcomma : ',' ∉ target := hparts target (of_part htarget)
    split at hserver
    next hslash =>
      obtain ⟨port, -, hserver⟩ := Except.of_bind_ok hserver
      obtain ⟨host, hhost, hserver⟩ := Except.of_bind_ok hserver
      obtain ⟨name, hname, hserver⟩ := Except.of_bind_ok hserver
      cases hserver
      have hhost := of_mem_splitOn (of_part hhost)
      have hname := of_mem_splitOn (of_part hname)
      refine ⟨by simp, ?_, ?_⟩
      · rintro _ ⟨⟩
        exact localhost_sayable (fun hc => hcomma (hhost.2 hc)) hhost.1
      · rintro _ ⟨⟩
        rw [Config.Plain, String.toList_ofList]
        exact ⟨fun hc => hcomma (hname.2 hc), hname.1⟩
    next hslash =>
      obtain ⟨port, -, hserver⟩ := Except.of_bind_ok hserver
      cases hserver
      refine ⟨by simp, ?_, by simp⟩
      rintro _ ⟨⟩
      exact localhost_sayable hcomma hslash

theorem server_sayable {dict : String → Option String} {definition : ServerDefinition}
    (hserver : server dict = .ok definition) : Config.SayableServer definition := by
  have hparts : ∀ text : List Char, ∀ part ∈ text.splitOn ',', ',' ∉ part :=
    fun text part hpart => (of_mem_splitOn hpart).1
  unfold server at hserver
  split at hserver
  · split at hserver <;> exact parseServer_sayable (hparts _) hserver
  · cases hserver
    exact ⟨by simp, by simp, by simp⟩

end Parts

end AdoNetConfig

namespace Config

section Said

variable {features : Features} {s : ConfigString}

theorem ofWindows_sayable (user password : String) : ∃ auth,
    AuthMethod.ofWindows user password = .windows auth ∧ SayableAccount auth := by
  unfold AuthMethod.ofWindows
  split
  next hdrop =>
    refine ⟨_, rfl, ?_⟩
    intro hslash
    have hall := List.dropWhile_eq_nil_iff.mp hdrop _ hslash
    simp at hall
  next first rest hdrop =>
    refine ⟨_, rfl, ?_⟩
    intro hslash
    rw [String.toList_ofList] at hslash
    have htaken := List.mem_takeWhile_imp hslash
    simp at htaken

theorem of_guarded {result : Except Error Bool} {auth method other : AuthMethod}
    (hguarded : (do if ← result then .ok method else .ok other) = Except.ok auth) :
    auth = method ∨ auth = other := by
  obtain ⟨truthy, -, hauth⟩ := Except.of_bind_ok hguarded
  cases truthy with
  | true => exact .inl (by simpa using hauth.symm)
  | false => exact .inr (by simpa using hauth.symm)

theorem authentication_sayable {auth : AuthMethod} (hauth : s.authentication features = .ok auth) :
    SayableAuth features.security auth := by
  obtain ⟨account, hwindows, haccount⟩ := ofWindows_sayable
    ((s.get ConfigString.userKeys).getD "") ((s.get ConfigString.passwordKeys).getD "")
  unfold ConfigString.authentication at hauth
  dsimp only at hauth
  rw [hwindows] at hauth
  split at hauth
  next hsecurity =>
    rcases of_guarded hauth with rfl | rfl
    · split
      · exact .inl hsecurity
      · exact ⟨haccount, .inl hsecurity⟩
    · trivial
  next hsecurity =>
    rcases of_guarded hauth with rfl | rfl
    · exact ⟨haccount, .inr (.inl hsecurity)⟩
    · trivial
  next hsecurity =>
    rcases of_guarded hauth with rfl | rfl
    · split
      · exact .inr (.inr hsecurity)
      · exact ⟨haccount, .inr (.inr hsecurity)⟩
    · trivial
  next hsecurity =>
    rcases of_guarded hauth with rfl | rfl
    · exact .inr (.inl hsecurity)
    · trivial
  next =>
    cases hauth
    trivial
  next =>
    cases hauth
    trivial

theorem encrypt_sayable {level : EncryptionLevel} (hlevel : s.encrypt features = .ok level) :
    SayableLevel features level := by
  unfold ConfigString.encrypt at hlevel
  split at hlevel
  next =>
    cases hlevel
    cases htls : features.tls <;> simp [SayableLevel, htls]
  next htls =>
    split at hlevel
    · cases hlevel
      exact htls
    · cases hlevel
      exact htls
    · split at hlevel
      · cases hlevel
        trivial
      · split at hlevel
        · split at hlevel
          next htds80 =>
            cases hlevel
            exact ⟨htls, htds80⟩
          next => cases hlevel
        · cases hlevel
  next =>
    split at hlevel
    · cases hlevel
      trivial
    · cases hlevel
    · split at hlevel
      · cases hlevel
        trivial
      · split at hlevel <;> cases hlevel

theorem Described.sayable {config : Config} (hdescribed : Described features s config)
    (hserver : s.server = AdoNetConfig.server s.dict) : Sayable features config where
  server := AdoNetConfig.server_sayable (hserver ▸ hdescribed.server)
  auth := authentication_sayable hdescribed.auth
  trust := by
    refine ⟨hdescribed.source, ?_⟩
    rw [hdescribed.extraCas]
    cases hca : s.trustCertCa with
    | none => exact .inl rfl
    | some path =>
      refine .inr ⟨?_, path, rfl⟩
      by_contra hbypass
      simp [hdescribed.consistent (by simpa using hbypass)] at hca
  encryption := encrypt_sayable hdescribed.encryption
  packetSize := hdescribed.packetSize
  handshakeTimeout := hdescribed.handshakeTimeout
  commandTimeout := hdescribed.commandTimeout
  lossyUtf16Decoding := hdescribed.lossyUtf16Decoding
  lossyCodepageDecoding := hdescribed.lossyCodepageDecoding

/-- What a connection string builds can be said, and however it is said it is built
again: by whichever keys and forms of values, in whatever order and between whatever
other settings. -/
theorem fromAdoString_roundTrip (features : Features) (config : Config) :
    ((∃ text, fromAdoString features text = .ok config) → Sayable features config) ∧
      (Sayable features config → ∀ spelling : Spelling, Unmistaken spelling config →
        ∀ settings : List Setting, (∀ setting ∈ settings, setting.Legal) →
          Spells spelling config (lastOf (entries settings)) →
            fromAdoString features (render settings) = .ok config) := by
  constructor
  · rintro ⟨text, htext⟩
    obtain ⟨s, ⟨dict, -, rfl⟩, hdescribed⟩ := described_of_fromAdoString htext
    exact hdescribed.sayable rfl
  · intro hsayable spelling htcp settings hlegal hspells
    exact fromAdoString_render hsayable htcp hlegal hspells

theorem headD_mem_keys (keyword : Keyword) : keyword.keys.headD "" ∈ keyword.keys := by
  cases keyword <;> decide

/-- The first key of each keyword. -/
def firstSpelling : Spelling where
  key keyword := keyword.keys.headD ""
  yes := "yes"
  no := "No "
  sspi := "SSPI"
  tcp := true
  key_mem := headD_mem_keys
  yes_reads := rfl
  no_reads := rfl
  sspi_reads := rfl

/-- An instance of a server, without encryption, for a user of a domain. -/
def namedConfig : Config :=
  { new { tls := true, tds80 := false, security := .winauth } with
    host := some "db"
    instanceName := some "main"
    port := some 1500
    encryption := .off
    auth := .windows { user := "sa", password := "p;w", domain := some "corp" }
    readonly := true }

def namedSettings : List Setting :=
  [⟨"uid", "somebody", .bare, [], [], [], []⟩,
    ⟨"server", "tcp:db\\main,1500", .single, [], [], [], []⟩,
    ⟨"uid", "corp\\sa", .bare, [' '], [], [], []⟩,
    ⟨"password", "p;w", .double, [], [], [' '], []⟩,
    ⟨"pooling", "on", .bare, [], [], [], []⟩,
    ⟨"integratedsecurity", "SSPI", .braces, [], [], [], []⟩,
    ⟨"encrypt", "No ", .single, [], [], [], []⟩,
    ⟨"applicationintent", "ReadOnly", .bare, [], [], [], []⟩]

theorem fromAdoString_roundTrip_named :
    fromAdoString { tls := true, tds80 := false, security := .winauth } (render namedSettings) =
      .ok namedConfig := by
  apply (fromAdoString_roundTrip _ namedConfig).2 _ firstSpelling (.inl rfl) namedSettings
  · simp only [namedSettings, List.forall_mem_cons, List.not_mem_nil, false_imp_iff, implies_true,
      and_true]
    refine ⟨?_, ?_, ?_, ?_, ?_, ?_, ?_, ?_⟩
    all_goals exact ⟨rfl, by decide, rfl, by decide, by decide, rfl, by decide, by decide,
      by decide, by decide, by decide⟩
  · intro keyword
    cases keyword <;> decide
  · have haccount : '\\' ∉ "corp".toList := by decide
    refine ⟨⟨by simp [namedConfig], ?_, ?_⟩, ⟨haccount, .inl rfl⟩, ⟨rfl, .inl rfl⟩, rfl, rfl, rfl,
      rfl, rfl, rfl⟩
    · rintro _ ⟨⟩
      exact ⟨⟨by decide, by decide⟩, by decide⟩
    · rintro _ ⟨⟩
      exact ⟨by decide, by decide⟩

end Said

end Config

end Tiberius
