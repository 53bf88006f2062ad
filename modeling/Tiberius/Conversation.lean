import Tiberius.Exposure
import Tiberius.LoginTable
import Tiberius.Unread

/-!
What the other side has been told when the handshake has succeeded. The bytes on each
stream, cut into packets and put together again, are the pre-login, one login message,
and for a security package its answer to the challenge of the server; the first two are
read back as the configuration has them.
-/

namespace Tiberius

open PacketCodec Reading Staging

/-- A message that is said by sending a payload: an empty one says nothing. -/
def said (ty : PacketType) (payload : List UInt8) : List Message :=
  if payload = [] then [] else [{ ty := ty, payload := payload }]

/-- What has been said where a link stands, on all the streams that it has been on. -/
def Standing.Says (standing : Standing) (messages : List Message) : Prop :=
  ∃ (before : List (Channel × List Framing)) (now : List Framing),
    standing.earlier = before.map (fun entry =>
      (entry.1, encoded (entry.2.flatMap Framing.packets))) ∧
    standing.wire = encoded (now.flatMap Framing.packets) ∧
    messages = (before.flatMap Prod.snd ++ now).map Framing.message

/-- The messages on all streams, as their receiver has them. -/
def Link.heardMessages (link : Link) : List Message :=
  link.written.flatMap fun entry => Message.onWire entry.2

namespace Standing

variable {standing : Standing} {messages : List Message}

theorem Says.sent (hspoken : standing.Says messages) (hrange : standing.context.SizeInRange)
    {header : UInt8 → PacketHeader} {ty : PacketType} (hheader : ∀ id, (header id).ty = ty)
    (payload : List UInt8) :
    (standing.numbered.sent (itemBytes standing.context header (.ok payload))).Says
      (messages ++ said ty payload) := by
  obtain ⟨before, now, hearlier, hwire, rfl⟩ := hspoken
  by_cases hpayload : payload = []
  · subst hpayload
    refine ⟨before, now, hearlier, ?_, ?_⟩
    · simp only [Standing.sent, numbered, itemBytes, messagePackets, List.length_nil, chunksOf_nil,
        packetsOf, hwire]
      exact List.append_nil _
    · rw [said, if_pos rfl, List.append_nil]
  · have hpos := Connection.payload_pos hrange
    have hle : standing.context.packetSize.toNat - headerBytes ≤ 65527 := by
      have hsize := hrange.2
      omega
    refine ⟨before, now ++ [{
      header := header standing.context.packetId
      chunk := standing.context.packetSize.toNat - headerBytes
      payload := payload
      chunk_pos := hpos
      chunk_le := hle
      payload_ne := hpayload }], hearlier, ?_, ?_⟩
    · simp only [Standing.sent, numbered, itemBytes, hwire, encoded, List.flatMap_append,
        List.flatMap_singleton, Framing.packets]
    · simp only [said, if_neg hpayload, ← List.append_assoc, List.map_append, List.map_cons,
        List.map_nil, Framing.message, hheader]

/-- On another stream nothing has been said yet, and all that was is kept. -/
theorem Says.moved (hspoken : standing.Says messages) (channel : Channel) (arrivals : Arrivals)
    (buf : List UInt8) :
    Says { standing with
      earlier := standing.earlier ++ [(standing.channel, standing.wire)]
      channel := channel
      wire := []
      arrivals := arrivals
      buf := buf } messages := by
  obtain ⟨before, now, hearlier, hwire, rfl⟩ := hspoken
  refine ⟨before ++ [(standing.channel, now)], [], ?_, rfl, ?_⟩
  · simp only [hearlier, hwire, List.map_append, List.map_cons, List.map_nil]
  · simp only [List.flatMap_append, List.flatMap_singleton, List.append_nil]

/-- What has been said is what its receiver reads. -/
theorem Says.read (hspoken : standing.Says messages) :
    (standing.earlier ++ [(standing.channel, standing.wire)]).flatMap
      (fun entry => Message.onWire entry.2) = messages := by
  obtain ⟨before, now, hearlier, hwire, rfl⟩ := hspoken
  rw [hearlier, hwire, List.flatMap_append, List.flatMap_singleton, Framing.onWire_whole,
    List.flatMap_map, List.map_append, List.map_flatMap]
  simp only [Framing.onWire_whole]

end Standing

namespace Link

variable {messages : List Message} {context : Context} {arrivals : Arrivals} {link : Link}

/-- A usable link on which some messages have been said. -/
def Said (messages : List Message) (link : Link) : Prop :=
  ∃ standing : Standing, standing.context.SizeInRange ∧ standing.Says messages ∧
    link.Ready standing

/-- One that has read nothing of what arrives. -/
structure Unheard (messages : List Message) (context : Context) (arrivals : Arrivals)
    (link : Link) : Prop where
  context : link.conn.context = context
  arrivals : link.conn.arrivals = arrivals
  buf : link.conn.buf = []
  said : link.Said messages

theorem Said.heard (hsaid : link.Said messages) : link.heardMessages = messages := by
  obtain ⟨standing, -, hspoken, hready⟩ := hsaid
  rw [heardMessages, hready.written]
  exact hspoken.read

theorem Unheard.of_ready {standing : Standing} (hready : link.Ready standing)
    (hspoken : standing.Says messages) (hrange : standing.context.SizeInRange)
    (hbuf : standing.buf = []) :
    link.Unheard messages standing.context standing.arrivals := by
  have harrivals := congrArg Standing.arrivals hready.stands
  have hempty := (congrArg Standing.buf hready.stands).trans hbuf
  exact ⟨hready.context, harrivals, hempty, standing, hrange, hspoken, hready⟩

theorem Unheard.secured (hunheard : link.Unheard messages context arrivals) (inside : Arrivals) :
    (link.secured inside).Unheard messages context inside := by
  obtain ⟨hcontext, -, -, standing, hrange, hspoken, hready⟩ := hunheard
  refine ⟨hcontext, rfl, rfl, _, ?_, ?_, hready.secured inside⟩
  · exact hrange
  · exact hspoken.moved .tls inside []

theorem Unheard.reframe (hunheard : link.Unheard messages context arrivals) (channel : Channel)
    (behind : Arrivals) : (link.reframe channel behind).Unheard messages context behind := by
  obtain ⟨hcontext, -, hbuf, standing, hrange, hspoken, hready⟩ := hunheard
  refine ⟨hcontext, rfl, hbuf, _, ?_, ?_, hready.reframe channel behind⟩
  · exact hrange
  · exact hspoken.moved channel behind standing.buf

end Link

section Challenge

variable [EncodingRs]

/-- The challenge of a server: what the first SSPI token holds of those that bytes are read
as, one behind the other. -/
inductive Challenges : Context → List UInt8 → List UInt8 → Prop where
  | sspi {context : Context} {bytes rest : List UInt8} (token : TokenSspi)
      (hdecode : ReceivedToken.decode.run context bytes = .done (.sspi token) rest) :
      Challenges context bytes token.bytes
  | other {context after : Context} {bytes rest challenge : List UInt8} (token : ReceivedToken)
      (hdecode : ReceivedToken.decode.run context bytes = .done token rest)
      (hother : ∀ sspi, token ≠ .sspi sspi) (hreceive : context.receive token = .ok after)
      (hrest : Challenges after rest challenge) : Challenges context bytes challenge

/-- What `flush_sspi` comes back with is the challenge in the unread bytes. -/
theorem flushSspi_challenges {fuel : ℕ} {state : Option TokenError} {stream : TokenStream}
    {challenge : TokenSspi} {after : Connection}
    (hrun : flushSspi.onStream fuel state stream = .returned (.ok challenge) after) :
    Challenges stream.conn.context stream.conn.unread challenge.bytes := by
  induction fuel generalizing state stream with
  | zero => cases hrun
  | succ fuel ih =>
    have hresumed := stream.next_resumed
    rw [Consumer.onStream] at hrun
    generalize stream.next = answer at hrun hresumed
    cases hresumed with
    | token token conn context lastError hdecode hreceive =>
      have hdecode := hdecode []
      rw [List.append_nil, List.append_nil] at hdecode
      have hlater : (∀ sspi, token ≠ .sspi sspi) → (∃ state, flushSspi.onStream fuel state
          { conn := { conn with context := context }, lastError := lastError } =
            .returned (.ok challenge) after) →
          Challenges stream.conn.context stream.conn.unread challenge.bytes := by
        intro hother hnext
        obtain ⟨state, hnext⟩ := hnext
        exact .other token hdecode hother hreceive (ih hnext)
      cases token with
      | sspi token =>
        cases hrun
        exact .sspi _ hdecode
      | error error => exact hlater (fun _ h => by cases h) ⟨_, hrun⟩
      | _ => exact hlater (fun _ h => by cases h) ⟨_, hrun⟩
    | finished conn => cases state <;> cases hrun
    | failed error conn => cases hrun
    | panicked conn => cases hrun
    | pending left conn lastError => cases hrun

end Challenge

namespace Linked

open Stage Link

/-- A stage that is over with what holds behind it; nothing is said of one cut short. -/
def Leads {α : Type} (Before : Link → Prop) (stage : Linked α) (After : α → Link → Prop) : Prop :=
  Triple Before stage After fun _ => True

theorem Leads.mono {α : Type} {Before : Link → Prop} {stage : Linked α}
    {After After' : α → Link → Prop} (hleads : Leads Before stage After)
    (hmore : ∀ value link, After value link → After' value link) : Leads Before stage After' :=
  fun link hlink => (hleads link hlink).weaken hmore fun _ _ => trivial

variable {messages : List Message}

/-- What is sent is said, and nothing is read. -/
theorem leads_sendItem {link : Link} (hsaid : link.Said messages)
    {header : UInt8 → PacketHeader} {ty : PacketType} (hheader : ∀ id, (header id).ty = ty)
    (item : Except Fault (List UInt8)) (fates : List Fate) :
    Leads (· = link) (sendItem header item fates) fun _ after =>
      ∃ payload, item = .ok payload ∧ after.Said (messages ++ said ty payload) ∧
        after.conn.context = link.conn.context.nextPacketId.2 ∧
        after.conn.arrivals = link.conn.arrivals ∧ after.conn.buf = link.conn.buf := by
  intro link hlink
  subst hlink
  obtain ⟨standing, hrange, hspoken, hready⟩ := hsaid
  have hstands := hready.stands
  subst hstands
  refine (triple_sendItem hrange header item fates link hready).weaken ?_ fun _ _ => trivial
  intro _ after ⟨⟨payload, hpayload⟩, _, hafter⟩
  subst hpayload
  refine ⟨payload, rfl, ⟨_, ?_, ?_, hafter⟩, hafter.context, ?_, ?_⟩
  · exact hrange
  · exact hspoken.sent hrange hheader payload
  · exact congrArg Standing.arrivals hafter.stands
  · exact congrArg Standing.buf hafter.stands

theorem leads_sendUnheard {context : Context} {arrivals : Arrivals}
    {header : UInt8 → PacketHeader} {ty : PacketType} (hheader : ∀ id, (header id).ty = ty)
    (item : Except Fault (List UInt8)) (fates : List Fate) :
    Leads (Unheard messages context arrivals) (sendItem header item fates) fun _ link =>
      ∃ payload, item = .ok payload ∧
        link.Unheard (messages ++ said ty payload) context.nextPacketId.2 arrivals := by
  intro link ⟨hcontext, harrivals, hbuf, hsaid⟩
  refine (leads_sendItem hsaid hheader item fates link rfl).weaken ?_ fun _ _ => trivial
  intro _ after ⟨payload, hpayload, hafter, hcontext', harrivals', hbuf'⟩
  rw [hcontext] at hcontext'
  rw [harrivals] at harrivals'
  rw [hbuf] at hbuf'
  exact ⟨payload, hpayload, hcontext', harrivals', hbuf', hafter⟩

theorem leads_listen [EncodingRs] {σ α : Type} (consumer : Consumer σ α) (state : σ) :
    Leads (Said messages) (ofFinished (consumer.run state)) fun _ link => link.Said messages := by
  intro link ⟨standing, hrange, hspoken, hready⟩
  refine (triple_listen [] consumer state hrange link hready).weaken ?_
    fun _ _ => trivial
  intro _ link ⟨context, arrivals, buf, hcontext, hready⟩
  refine ⟨_, ?_, ?_, hready⟩
  · exact hcontext
  · exact hspoken

theorem leads_flushSspi [EncodingRs] {context : Context} {arrivals : Arrivals} :
    Leads (Unheard messages context arrivals) (ofFinished (flushSspi.run none))
      fun challenge link =>
        Challenges context (arrivals.packets.flatMap Packet.payload) challenge.bytes ∧
          link.Said messages := by
  intro link ⟨hcontext, harrivals, hbuf, hsaid⟩
  have hheard := leads_listen flushSspi none link hsaid
  have hunread : link.conn.unread = arrivals.packets.flatMap Packet.payload := by
    rw [Connection.unread, hbuf, List.nil_append, ← harrivals]
    rfl
  unfold ofFinished at hheard ⊢
  simp only at hheard ⊢
  cases hrun : flushSspi.run none link.conn with
  | returned result after =>
    rw [hrun] at hheard
    cases result with
    | error error => trivial
    | ok challenge =>
      have hchallenges := flushSspi_challenges hrun
      rw [show (TokenStream.new link.conn).conn = link.conn from rfl, hcontext,
        hunread] at hchallenges
      exact ⟨hchallenges, hheard⟩
  | panicked after => trivial
  | waiting after => trivial

end Linked

namespace Establish

open Stage Link Linked

section Statement

variable (platform : Platform) (config : Config) (peer : Peer)

/-- The packets that the answer to the pre-login is read from. -/
def firstArrivals : Option (Except Error Arrivals) :=
  if platform.features.tls && config.encryption == .strict then peer.handshake
  else some (.ok peer.clear)

/-- The packets that come behind the login. -/
def lastArrivals (encryption : EncryptionLevel) (left : Arrivals) :
    Option (Except Error Arrivals) :=
  if platform.features.tls then
    match encryption with
    | .notSupported | .strict => some (.ok left)
    | .off => peer.handshake.map fun result => result.map fun _ => peer.afterLogin
    | .on | .required => peer.handshake
  else some ((checkTlsBackendAvailable config.encryption).map fun _ => left)

/-- The answer to the pre-login, for the first message that arrives. -/
def Answered (response : PreloginMessage) (left : Arrivals) : Prop :=
  ∃ arrivals src, firstArrivals platform config peer = some (.ok arrivals) ∧
    arrivals.Gives src left ∧ PreloginMessage.decode platform.driverVersion src = .ok response

/-- The challenge of the server, in what comes behind the login. -/
def Challenged [EncodingRs] (response : PreloginMessage) (left : Arrivals)
    (challenge : List UInt8) : Prop :=
  ∃ encryption last,
    response.negotiatedEncryption platform.features config.encryption = .ok encryption ∧
    lastArrivals platform config peer encryption left = some (.ok last) ∧
    Challenges (context config).nextPacketId.2.nextPacketId.2
      (last.packets.flatMap Packet.payload) challenge

/-- The login message of a configuration, with the first token of a security package. -/
def loginMessage (response : PreloginMessage) (token : Option (List UInt8)) : LoginMessage :=
  let message := LoginMessage.ofConfig platform.computerName config
  match config.auth with
  | .none => message
  | .sqlServer user password => (message.setUserName user).setPassword password
  | .aadToken accessToken =>
    message.setAadToken accessToken response.fedAuthRequired response.nonceVector
  | .integrated | .windows _ => message.setIntegratedSecurity token

/-- A security package for a service: what it begins with, and what it answers to a
challenge, said in a message of its own. -/
def Negotiates (auth : Option WindowsAuth) (ty : PacketType) (challenge : List UInt8)
    (first answer : Option (List UInt8)) (reply : List Message) : Prop :=
  platform.package auth (spn config) none = .ok first ∧
    platform.package auth (spn config) (some challenge) = .ok answer ∧
    reply = said ty (answer.getD [])

/-- What each method says besides the fields of the login message: the token in it, and
what follows the challenge of the server. -/
def Authenticates [EncodingRs] (response : PreloginMessage) (left : Arrivals)
    (token : Option (List UInt8)) (reply : List Message) : Prop :=
  match config.auth, platform.features.security with
  | .none, _ | .sqlServer _ _, _ | .aadToken _, _ => token = none ∧ reply = []
  | .integrated, .winauth => ∃ challenge answer,
      Challenged platform config peer response left challenge ∧
      Negotiates platform config none .sspi challenge token (some answer) reply
  | .windows user, .winauth => ∃ challenge answer,
      Challenged platform config peer response left challenge ∧
      Negotiates platform config (some user) .tdsv7Login challenge token (some answer) reply
  | .integrated, .gssapi | .integrated, .sspiRsGssapi => ∃ challenge first answer,
      Challenged platform config peer response left challenge ∧
      Negotiates platform config none .tdsv7Login challenge (some first) answer reply ∧
      token = some first
  | .windows user, .sspiRs | .windows user, .sspiRsGssapi => ∃ challenge first answer,
      Challenged platform config peer response left challenge ∧
      Negotiates platform config (some user) .tdsv7Login challenge first answer reply ∧
      token = some (first.getD [])
  | .integrated, .none | .integrated, .sspiRs | .windows _, .none | .windows _, .gssapi => False

/-- The other side has been told one login message, and what it has asked for. -/
def Told (messages : List Message) (message : Option (List UInt8) → LoginMessage)
    (Says : Option (List UInt8) → List Message → Prop) (link : Link) : Prop :=
  ∃ token login reply, (message token).encodeToBoxedSlice = .ok login ∧ Says token reply ∧
    link.Said (messages ++ [{ ty := .tdsv7Login, payload := login }] ++ reply)

/-- The pre-login as it is read back: strict encryption is asked for as required. -/
def preloginHeard : PreloginMessage :=
  { preloginMessage platform config with
    encryption := if config.encryption = .strict then .required else config.encryption }

/-- The other side has been told the configuration, in messages that it reads back, and
what is left is ready for use. -/
structure Conversation [EncodingRs] (link : Link) (response : PreloginMessage)
    (token : Option (List UInt8)) (prelogin login : List UInt8) (reply : List Message) :
    Prop where
  answered : ∃ left, Answered platform config peer response left ∧
    Authenticates platform config peer response left token reply
  heard : link.heardMessages =
    { ty := .preLogin, payload := prelogin } :: { ty := .tdsv7Login, payload := login } :: reply
  preloginRead : (∀ name, config.instanceName = some name → name ≠ "" ∧ '\x00' ∉ name.toList) →
    (preloginHeard platform config).encodedLength < 2 ^ 16 →
    PreloginMessage.decode platform.driverVersion prelogin = .ok (preloginHeard platform config)
  loginRead : (loginMessage platform config response token).Fits →
    (loginMessage platform config response token).Delimited login
  usable : link.conn.ensureNotPoisoned = .ok ()
  clean : link.conn.transport.Clean
  range : link.conn.context.SizeInRange
  timeout : link.conn.context.commandTimeout = config.commandTimeout

end Statement

section Stages

variable {platform : Platform} {config : Config} {peer : Peer} {messages : List Message}
  {context : Context} {arrivals left : Arrivals} {encryption : EncryptionLevel}
  {response : PreloginMessage}

theorem leads_createTlsStream :
    Leads (Unheard messages context arrivals) (createTlsStream peer) fun _ link =>
      ∃ inside, peer.handshake = some (.ok inside) ∧ link.Unheard messages context inside := by
  intro link hlink
  unfold createTlsStream
  cases peer.handshake with
  | none => trivial
  | some result =>
    cases result with
    | error error => trivial
    | ok inside => exact ⟨inside, rfl, hlink.secured inside⟩

theorem leads_wrapSocket :
    Leads (Unheard messages context arrivals) (wrapSocket peer) fun _ link =>
      ∃ inside, peer.handshake = some (.ok inside) ∧ link.Unheard messages context inside := by
  intro link hlink
  unfold wrapSocket
  simp only
  split
  · exact leads_createTlsStream link hlink
  · trivial

/-- What comes behind the login of what comes now. -/
def behindLogin (platform : Platform) (peer : Peer) (encryption : EncryptionLevel)
    (arrivals : Arrivals) : Arrivals :=
  if platform.features.tls && encryption == .off then peer.afterLogin else arrivals

theorem leads_tlsHandshake :
    Leads (Unheard messages context left) (tlsHandshake platform config peer encryption)
      fun _ link => ∃ arrivals, lastArrivals platform config peer encryption left =
        some (.ok (behindLogin platform peer encryption arrivals)) ∧
        link.Unheard messages context arrivals := by
  intro link hlink
  unfold tlsHandshake lastArrivals behindLogin
  cases platform.features.tls with
  | true =>
    simp only [if_true, Bool.true_and, beq_iff_eq]
    have hwrap := @leads_wrapSocket peer messages context left link hlink
    cases encryption with
    | notSupported => exact ⟨left, rfl, hlink⟩
    | strict => exact ⟨left, rfl, hlink⟩
    | off =>
      refine hwrap.weaken (fun _ link hpost => ?_) fun _ _ => trivial
      obtain ⟨inside, hinside, hlink⟩ := hpost
      refine ⟨inside, ?_, hlink⟩
      rw [hinside]
      rfl
    | on => exact hwrap
    | required => exact hwrap
  | false =>
    simp only [Bool.false_eq_true, if_false, Bool.false_and]
    cases checkTlsBackendAvailable config.encryption with
    | error error => trivial
    | ok value => exact ⟨left, rfl, hlink⟩

theorem leads_postLoginEncryption :
    Leads (Unheard messages context arrivals) (postLoginEncryption platform peer encryption)
      fun _ => Unheard messages context (behindLogin platform peer encryption arrivals) := by
  intro link hlink
  unfold postLoginEncryption behindLogin
  split
  · exact hlink.reframe .raw peer.afterLogin
  · exact hlink

theorem said_login (message : LoginMessage) {payload : List UInt8}
    (hpayload : message.encodeToBoxedSlice = .ok payload) :
    said .tdsv7Login payload = [{ ty := .tdsv7Login, payload := payload }] := by
  refine if_neg ?_
  intro hnil
  obtain rfl := Except.ok.inj (message.encode_eq.symm.trans hpayload)
  have hlength := message.layout_length
  rw [hnil, List.length_nil, LoginMessage.encodedLen] at hlength
  omega

theorem preLogin_ty (id : UInt8) : (PacketHeader.preLogin id).ty = .preLogin := rfl

theorem login_ty (id : UInt8) : (PacketHeader.login id).ty = .tdsv7Login := rfl

theorem sspi_ty (id : UInt8) : (PacketHeader.sspi id).ty = .sspi := rfl

theorem leads_loginItem (message : LoginMessage) (fates : List Fate) :
    Leads (Unheard messages context arrivals) (sendItem .login message.encodeToBoxedSlice fates)
      fun _ link => ∃ login, message.encodeToBoxedSlice = .ok login ∧
        link.Unheard (messages ++ [{ ty := .tdsv7Login, payload := login }])
          context.nextPacketId.2 arrivals := by
  refine (leads_sendUnheard login_ty message.encodeToBoxedSlice fates).mono fun _ link hpost => ?_
  obtain ⟨login, hlogin, hlink⟩ := hpost
  rw [said_login message hlogin] at hlink
  exact ⟨login, hlogin, hlink⟩

theorem told_single {message : LoginMessage} {login : List UInt8} {link : Link}
    (hlogin : message.encodeToBoxedSlice = .ok login)
    (hlink : link.Unheard (messages ++ [{ ty := .tdsv7Login, payload := login }]) context
      arrivals) :
    Told messages (fun _ => message) (fun token reply => token = none ∧ reply = []) link :=
  ⟨none, login, [], hlogin, ⟨rfl, rfl⟩, by rw [List.append_nil]; exact hlink.said⟩

theorem leads_sensitiveLogin (message : LoginMessage) :
    Leads (Unheard messages context arrivals) (sensitiveLogin platform peer message encryption)
      fun _ => Told messages (fun _ => message) fun token reply => token = none ∧ reply = [] := by
  refine triple_bind (triple_ofFault _ fun _ _ => trivial) fun login => ?_
  intro link ⟨hlogin, hcontext, harrivals, hbuf, standing, hrange, hspoken, hlink⟩
  have hnumber : Leads (Ready standing) nextPacketId fun id link =>
      id = standing.context.packetId ∧ link.Ready standing.numbered :=
    (triple_nextPacketId []).weaken (fun _ hready => hready) (fun _ _ hafter => hafter)
      fun _ _ => trivial
  have hsend : Leads (Ready standing.numbered)
      (ofAttempt fun conn =>
        conn.sendSensitiveLogin (.login standing.context.packetId) login peer.loginFates)
      fun _ => Unheard (messages ++ [{ ty := .tdsv7Login, payload := login }])
        context.nextPacketId.2 arrivals := by
    have hstands := hlink.stands
    subst hstands
    intro link hlink
    refine (triple_sendSensitiveLogin hrange login peer.loginFates link hlink).weaken ?_
      fun _ _ => trivial
    intro _ link ⟨_, hready⟩
    have hspoken := hspoken.sent hrange login_ty login
    rw [said_login message hlogin] at hspoken
    rw [← hcontext, ← harrivals]
    exact .of_ready hready hspoken hrange hbuf
  refine triple_bind hnumber (fun id => ?_) link hlink
  intro link ⟨hid, hlink⟩
  subst hid
  refine triple_bind hsend (fun _ => ?_) link hlink
  exact leads_postLoginEncryption.mono fun _ _ => told_single hlogin

theorem leads_prelogin [StdLib] {standing : Standing}
    (hcontext : standing.context = Establish.context config) (hbuf : standing.buf = [])
    (hspoken : standing.Says [])
    (hfirst : firstArrivals platform config peer = some (.ok standing.arrivals)) :
    Leads (Ready standing) (prelogin platform config peer) fun response link =>
      ∃ left, Answered platform config peer response left ∧
        ∃ src, (preloginMessage platform config).encode [] = .ok src ∧
          link.Unheard [{ ty := .preLogin, payload := src }]
            (Establish.context config).nextPacketId.2 left := by
  have hrange : standing.context.SizeInRange := by
    rw [hcontext]
    exact Context.new_sizeInRange
  intro link hlink
  refine (triple_prelogin hcontext link hlink).weaken ?_ fun _ _ => trivial
  intro response link ⟨⟨src, hsrc⟩, bytes, left, hgives, hdecode, hready⟩
  have hne : src ≠ [] := by
    intro hnil
    have hlength := PreloginMessage.encode_length _ hsrc
    rw [hnil, List.length_nil, PreloginMessage.encodedLength] at hlength
    omega
  have hsaid := hspoken.sent hrange preLogin_ty src
  rw [said, if_neg hne, hcontext] at hsaid
  refine ⟨left, ⟨_, bytes, hfirst, hgives, hdecode⟩, src, hsrc, ?_⟩
  rw [← hcontext]
  refine .of_ready hready ?_ hrange hbuf
  rw [preloginBytes, hsrc]
  exact hsaid

theorem of_gssapiFirst {token : Option (List UInt8)}
    (hfirst : (do
      match ← platform.package none (spn config) none with
      | some token => pure (some token)
      | none => throw noInitialToken : Except Error (Option (List UInt8))) = .ok token) :
    ∃ first, platform.package none (spn config) none = .ok (some first) ∧ token = some first := by
  cases hpackage : platform.package none (spn config) none with
  | error error =>
    rw [hpackage] at hfirst
    cases hfirst
  | ok output =>
    rw [hpackage] at hfirst
    cases output with
    | none => cases hfirst
    | some first =>
      cases hfirst
      exact ⟨first, rfl, rfl⟩

theorem of_sspiFirst {user : WindowsAuth} {token : Option (List UInt8)}
    (hfirst : (do
      let output ← platform.package (some user) (spn config) none
      pure (some (output.getD [])) : Except Error (Option (List UInt8))) = .ok token) :
    ∃ first, platform.package (some user) (spn config) none = .ok first ∧
      token = some (first.getD []) := by
  cases hpackage : platform.package (some user) (spn config) none with
  | error error =>
    rw [hpackage] at hfirst
    cases hfirst
  | ok first =>
    rw [hpackage] at hfirst
    cases hfirst
    exact ⟨first, rfl, rfl⟩

theorem Told.weaken {message : Option (List UInt8) → LoginMessage}
    {Says Says' : Option (List UInt8) → List Message → Prop} {link : Link}
    (htold : Told messages message Says link) (hmore : ∀ token reply, Says token reply →
      Says' token reply) : Told messages message Says' link := by
  obtain ⟨token, login, reply, hlogin, hreply, hlink⟩ := htold
  exact ⟨token, login, reply, hlogin, hmore token reply hreply, hlink⟩

variable [EncodingRs]

/-- The two legs of a login with a security package. -/
theorem leads_challenged (first : Except Error (Option (List UInt8)))
    (respond : List UInt8 → Except Error (List UInt8))
    {header : UInt8 → PacketHeader} {ty : PacketType} (hheader : ∀ id, (header id).ty = ty)
    (message : LoginMessage) :
    Leads (Unheard messages context arrivals)
      (challenged platform peer first respond header message encryption)
      fun _ => Told messages message.setIntegratedSecurity fun token reply =>
        first = .ok token ∧ ∃ challenge answer, respond challenge = .ok answer ∧
          Challenges context.nextPacketId.2
            ((behindLogin platform peer encryption arrivals).packets.flatMap Packet.payload)
            challenge ∧
          reply = said ty answer := by
  refine triple_bind (triple_ofExcept first fun _ _ => trivial) fun token => ?_
  intro link ⟨hfirst, hlink⟩
  refine triple_bind (leads_loginItem (message.setIntegratedSecurity token) peer.loginFates)
    (fun _ => ?_) link hlink
  intro link ⟨login, hlogin, hlink⟩
  refine triple_bind leads_postLoginEncryption (fun _ => ?_) link hlink
  refine triple_bind leads_flushSspi fun challenge => ?_
  refine triple_bind (triple_ofExcept _ fun _ _ => trivial) fun answer => ?_
  intro link ⟨hanswer, hchallenges, hsaid⟩
  refine (leads_sendItem hsaid hheader (.ok answer) peer.replyFates link rfl).weaken ?_
    fun _ _ => trivial
  intro _ after ⟨payload, hpayload, hafter, _⟩
  obtain rfl := Except.ok.inj hpayload
  exact ⟨token, login, _, hlogin, ⟨hfirst, _, answer, hanswer, hchallenges, rfl⟩, hafter⟩

section Methods

variable
  (hlevel : response.negotiatedEncryption platform.features config.encryption = .ok encryption)
  (hlast : lastArrivals platform config peer encryption left =
    some (.ok (behindLogin platform peer encryption arrivals)))
include hlevel hlast

theorem leads_winauthLogin (message : LoginMessage) (auth : Option WindowsAuth)
    {header : UInt8 → PacketHeader} {ty : PacketType} (hheader : ∀ id, (header id).ty = ty) :
    Leads (Unheard messages (Establish.context config).nextPacketId.2 arrivals)
      (winauthLogin platform config peer auth header message encryption) fun _ =>
      Told messages message.setIntegratedSecurity fun token reply => ∃ challenge answer,
        Challenged platform config peer response left challenge ∧
        Negotiates platform config auth ty challenge token (some answer) reply := by
  refine (leads_challenged _ _ hheader message).mono fun _ link htold => ?_
  refine htold.weaken fun token reply hauthenticates => ?_
  obtain ⟨hfirst, challenge, answer, hanswer, hchallenges, hreply⟩ := hauthenticates
  exact ⟨challenge, answer, ⟨encryption, _, hlevel, hlast, hchallenges⟩, hfirst,
    of_winauthResponse hanswer, hreply⟩

theorem leads_gssapiLogin (message : LoginMessage) :
    Leads (Unheard messages (Establish.context config).nextPacketId.2 arrivals)
      (gssapiLogin platform config peer message encryption) fun _ =>
      Told messages message.setIntegratedSecurity fun token reply => ∃ challenge first answer,
        Challenged platform config peer response left challenge ∧
        Negotiates platform config none .tdsv7Login challenge (some first) answer reply ∧
        token = some first := by
  refine (leads_challenged _ _ login_ty message).mono fun _ link htold => ?_
  refine htold.weaken fun token reply hauthenticates => ?_
  obtain ⟨hfirst, challenge, answer, hanswer, hchallenges, hreply⟩ := hauthenticates
  obtain ⟨first, hpackage, htoken⟩ := of_gssapiFirst hfirst
  obtain ⟨output, houtput, rfl⟩ := of_packageResponse hanswer
  exact ⟨challenge, first, output, ⟨encryption, _, hlevel, hlast, hchallenges⟩,
    ⟨hpackage, houtput, hreply⟩, htoken⟩

theorem leads_sspiLogin (message : LoginMessage) (user : WindowsAuth) :
    Leads (Unheard messages (Establish.context config).nextPacketId.2 arrivals)
      (sspiLogin platform config peer user message encryption) fun _ =>
      Told messages message.setIntegratedSecurity fun token reply => ∃ challenge first answer,
        Challenged platform config peer response left challenge ∧
        Negotiates platform config (some user) .tdsv7Login challenge first answer reply ∧
        token = some (first.getD []) := by
  refine (leads_challenged _ _ login_ty message).mono fun _ link htold => ?_
  refine htold.weaken fun token reply hauthenticates => ?_
  obtain ⟨hfirst, challenge, answer, hanswer, hchallenges, hreply⟩ := hauthenticates
  obtain ⟨first, hpackage, htoken⟩ := of_sspiFirst hfirst
  obtain ⟨output, houtput, rfl⟩ := of_packageResponse hanswer
  exact ⟨challenge, first, output, ⟨encryption, _, hlevel, hlast, hchallenges⟩,
    ⟨hpackage, houtput, hreply⟩, htoken⟩

theorem leads_login :
    Leads (Unheard messages (Establish.context config).nextPacketId.2 arrivals)
      (login platform config peer encryption response) fun _ =>
      Told messages (loginMessage platform config response)
        (Authenticates platform config peer response left) := by
  unfold Establish.login loginMessage Authenticates
  cases hauth : config.auth with
  | none =>
    intro link hlink
    refine triple_bind (leads_loginItem _ peer.loginFates) (fun _ => ?_) link hlink
    intro link ⟨login, hlogin, hlink⟩
    exact leads_postLoginEncryption.mono (fun _ _ => told_single hlogin) link hlink
  | sqlServer user password => exact leads_sensitiveLogin _
  | aadToken accessToken => exact leads_sensitiveLogin _
  | integrated =>
    cases platform.features.security with
    | none => exact fun _ _ => trivial
    | winauth => exact leads_winauthLogin hlevel hlast _ none sspi_ty
    | gssapi => exact leads_gssapiLogin hlevel hlast _
    | sspiRs => exact fun _ _ => trivial
    | sspiRsGssapi => exact leads_gssapiLogin hlevel hlast _
  | windows user =>
    cases platform.features.security with
    | none => exact fun _ _ => trivial
    | winauth => exact leads_winauthLogin hlevel hlast _ (some user) login_ty
    | gssapi => exact fun _ _ => trivial
    | sspiRs => exact leads_sspiLogin hlevel hlast _ user
    | sspiRsGssapi => exact leads_sspiLogin hlevel hlast _ user

end Methods

end Stages

section Whole

variable {platform : Platform} {config : Config} {peer : Peer}

theorem leads_strictTls :
    Leads (· = start config peer) (strictTls platform config peer) fun _ link =>
      ∃ standing : Standing, standing.context = context config ∧ standing.Says [] ∧
        standing.buf = [] ∧ firstArrivals platform config peer = some (.ok standing.arrivals) ∧
        link.Ready standing := by
  intro link hlink
  subst hlink
  have hspoken : Standing.Says
      { earlier := [], channel := .raw, wire := [], context := context config
        arrivals := peer.clear, buf := [] } [] := ⟨[], [], rfl, rfl, rfl⟩
  unfold strictTls firstArrivals
  by_cases hstrict : (platform.features.tls && config.encryption == .strict) = true
  · rw [if_pos hstrict, if_pos hstrict]
    unfold createTlsStream
    cases peer.handshake with
    | none => trivial
    | some result =>
      cases result with
      | error error => trivial
      | ok arrivals =>
        exact ⟨_, rfl, hspoken.moved .tls arrivals [], rfl, rfl, start_ready.secured arrivals⟩
  · rw [if_neg hstrict, if_neg hstrict]
    exact ⟨_, rfl, hspoken, rfl, rfl, start_ready⟩

theorem encode_preloginHeard :
    (preloginHeard platform config).encode [] = (preloginMessage platform config).encode [] := by
  unfold preloginHeard
  split
  next hstrict =>
    have hfields : PreloginMessage.fields
        { preloginMessage platform config with encryption := .required } =
          (preloginMessage platform config).fields := by
      have hlevel : (preloginMessage platform config).encryption = .strict := hstrict
      simp only [PreloginMessage.fields, PreloginMessage.encryptionField, hlevel]
      rfl
    rw [PreloginMessage.encode, PreloginMessage.encode, hfields]
  next => rfl

theorem preloginHeard_read {prelogin : List UInt8}
    (hprelogin : (preloginMessage platform config).encode [] = .ok prelogin)
    (hname : ∀ name, config.instanceName = some name → name ≠ "" ∧ '\x00' ∉ name.toList)
    (hshort : (preloginHeard platform config).encodedLength < 2 ^ 16) :
    PreloginMessage.decode platform.driverVersion prelogin =
      .ok (preloginHeard platform config) := by
  have hstrict : (preloginHeard platform config).encryption ≠ .strict := by
    unfold preloginHeard
    split
    next => exact fun hlevel => by cases hlevel
    next hother => exact hother
  obtain ⟨bytes, hencode, hdecode⟩ := PreloginMessage.decode_encode (preloginHeard platform config)
    platform.driverVersion rfl hstrict hname hshort
  rw [encode_preloginHeard, hprelogin] at hencode
  obtain rfl := Except.ok.inj hencode
  exact hdecode

theorem returned_of_withOptionalTimeout {α : Type} {timeout : Option Duration}
    {exit : Exit Error Link α} {value : α} {link : Link}
    (hreturned : withOptionalTimeout timeout exit = .returned value link) :
    exit = .returned value link := by
  cases timeout <;> cases exit <;> first | exact hreturned | cases hreturned

theorem said_timeout {messages : List Message} {link : Link} (hsaid : link.Said messages)
    (timeout : Option Duration) :
    Link.Said messages
      { link with
        conn :=
          { link.conn with context := { link.conn.context with commandTimeout := timeout } } } := by
  obtain ⟨standing, hrange, hspoken, hready⟩ := hsaid
  rw [← hready.stands] at hrange hspoken
  refine ⟨{ link.standing with
      context := { link.conn.context with commandTimeout := timeout } }, ?_, ?_,
    ⟨rfl, hready.clean, hready.usable⟩⟩
  · exact hrange
  · exact hspoken

/-- The stages of a handshake, to where the connection is handed out. -/
theorem leads_establish [StdLib] [EncodingRs] :
    Leads (· = start config peer) (establish platform config peer) fun _ link =>
      ∃ response token prelogin login reply,
        Conversation platform config peer link response token prelogin login reply ∧
        link.Said ({ ty := .preLogin, payload := prelogin } ::
          { ty := .tdsv7Login, payload := login } :: reply) := by
  refine triple_bind leads_strictTls fun _ => ?_
  intro link ⟨standing, hcontext, hspoken, hbuf, hfirst, hlink⟩
  refine triple_bind (leads_prelogin hcontext hbuf hspoken hfirst) (fun response => ?_) link hlink
  intro link ⟨left, hanswered, prelogin, hprelogin, hlink⟩
  refine triple_bind (triple_ofExcept _ fun _ _ => trivial) (fun encryption => ?_) link hlink
  intro link ⟨hlevel, hlink⟩
  refine triple_bind leads_tlsHandshake (fun _ => ?_) link hlink
  intro link ⟨arrivals, hlast, hlink⟩
  refine triple_bind (leads_login hlevel hlast) (fun _ => ?_) link hlink
  intro link ⟨token, login, reply, hlogin, hreply, hlink⟩
  refine triple_bind (leads_listen flushDone _) (fun _ => ?_) link hlink
  refine triple_modify fun link hsaid => ⟨response, token, prelogin, login, reply, ?_,
    said_timeout hsaid config.commandTimeout⟩
  have hheard := hsaid.heard
  obtain ⟨standing, hrange, -, hready⟩ := hsaid
  exact
    { answered := ⟨left, hanswered, hreply⟩
      heard := hheard
      preloginRead := fun hname => preloginHeard_read hprelogin hname
      loginRead := fun hfits => by
        obtain rfl := Except.ok.inj ((LoginMessage.encode_eq _).symm.trans hlogin)
        exact LoginMessage.delimited_of_fits hfits
      usable := hready.usable
      clean := hready.clean
      range := by
        rw [← hready.context] at hrange
        exact hrange
      timeout := rfl }

/-- The messages of a handshake that has succeeded. -/
theorem connect_said [StdLib] [EncodingRs] {link : Link}
    (hreturned : connect platform config peer = .returned () link) :
    ∃ response token prelogin login reply,
      Conversation platform config peer link response token prelogin login reply ∧
      link.Said ({ ty := .preLogin, payload := prelogin } ::
        { ty := .tdsv7Login, payload := login } :: reply) := by
  have hmeets := @leads_establish platform config peer _ _ _ rfl
  rw [returned_of_withOptionalTimeout hreturned] at hmeets
  exact hmeets

/-- What a handshake that succeeds has told the other side, whoever that is. -/
theorem connect_conversation [StdLib] [EncodingRs] (platform : Platform) (config : Config)
    (peer : Peer) (link : Link) (hreturned : connect platform config peer = .returned () link) :
    ∃ response token prelogin login reply,
      Conversation platform config peer link response token prelogin login reply := by
  obtain ⟨response, token, prelogin, login, reply, hconversation, -⟩ := connect_said hreturned
  exact ⟨response, token, prelogin, login, reply, hconversation⟩

/-- A driver with a security package, which gives a challenge back in reverse. -/
def packagePlatform : Platform :=
  { plainPlatform with
    features := { tls := true, tds80 := false, security := .winauth }
    package := fun _ _ challenge => .ok (some (challenge.elim [1] List.reverse)) }

def packageConfig : Config :=
  { Config.new packagePlatform.features with
    encryption := .on
    auth := .integrated }

/-- A server that challenges a login before it answers with a DONE. -/
def challengingPeer : Peer :=
  { admittingPeer with
    handshake := some (.ok
      { packets :=
          [responsePacket true [0xed, 2, 0, 7, 8],
            responsePacket true [0xfd, 0, 0, 0, 0, 0, 0, 0, 0, 0, 0, 0, 0]]
        ending := .silent }) }

set_option maxRecDepth 8000 in
theorem connect_conversation_challenged :
    ∃ link response token prelogin login,
      @Conversation packagePlatform packageConfig challengingPeer .ascii link response token
        prelogin login [{ ty := .sspi, payload := [8, 7] }] := by
  have hreply : ∃ link, @connect packagePlatform packageConfig challengingPeer .exact .ascii =
      .returned () link ∧ link.heardMessages.drop 2 = [{ ty := .sspi, payload := [8, 7] }] :=
    ⟨_, rfl, rfl⟩
  obtain ⟨link, hlink, hreply⟩ := hreply
  obtain ⟨response, token, prelogin, login, reply, hconversation⟩ :=
    @connect_conversation .exact .ascii packagePlatform packageConfig challengingPeer link hlink
  rw [@Conversation.heard _ _ _ .ascii _ _ _ _ _ _ hconversation] at hreply
  obtain rfl : reply = _ := hreply
  exact ⟨link, response, token, prelogin, login, hconversation⟩

end Whole

end Establish

end Tiberius
