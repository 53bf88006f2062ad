import Tiberius.Confinement

/-!
What the handshake writes in the clear, for every peer and wherever it is cut short.
In front of TLS nothing goes out but the pre-login, in strict mode not even that.
Behind TLS nothing goes out but the second leg of a login with a security package,
on the two sides having settled for a login in TLS and nothing else. Everything is
in the clear where both sides say that they do not have TLS, and only there.
-/

namespace Tiberius

open PacketCodec Reading Staging

namespace Establish

open Stage Link Linked

section Statement

variable (platform : Platform) (config : Config) (peer : Peer)

/-- The pre-login on a connection that is new. -/
def preloginBytes : List UInt8 :=
  itemBytes (context config) .preLogin ((preloginMessage platform config).encode [])

/-- What goes out in front of TLS. -/
def opening : List UInt8 :=
  if config.encryption = .strict then [] else preloginBytes platform config

/-- The first message on the socket offers a level of encryption. -/
def Offers (level : EncryptionLevel) : Prop :=
  ∃ src left response, peer.clear.Gives src left ∧
    PreloginMessage.decode platform.driverVersion src = .ok response ∧
    response.encryption = level

/-- A whole login message. -/
def LoginBytes (bytes : List UInt8) : Prop :=
  ∃ id chunk, ∃ message : LoginMessage, ∃ payload, 0 < chunk ∧
    message.encodeToBoxedSlice = .ok payload ∧
    bytes = encoded (messagePackets (.login id) chunk payload)

/-- A part of a message that holds what a security package answers to a challenge. -/
def ReplyBytes (bytes : List UInt8) : Prop :=
  ∃ auth challenge answer header chunk,
    config.auth = auth.elim .integrated .windows ∧
    platform.package auth (spn config) (some challenge) = .ok answer ∧
    bytes <+: encoded (messagePackets header chunk (answer.getD []))

/-- What may have been written when the handshake is over, on which stream. -/
inductive Exposure : List (Channel × List UInt8) → Prop where
  | opening (part : List UInt8) (hpart : part <+: opening platform config) :
      Exposure [(.raw, part)]
  | secured (inside : List UInt8) : Exposure [(.raw, opening platform config), (.tls, inside)]
  | answered (inside back : List UInt8) (hours : config.encryption = .off)
      (htheirs : Offers platform peer .off) (hinside : LoginBytes inside)
      (hback : back = [] ∨ ReplyBytes platform config back) :
      Exposure [(.raw, opening platform config), (.tls, inside), (.raw, back)]
  | plain (text : List UInt8) (hours : config.encryption = .notSupported)
      (htheirs : Offers platform peer .notSupported) :
      Exposure [(.raw, preloginBytes platform config ++ text)]

end Statement

section Stages

variable {platform : Platform} {config : Config} {peer : Peer} {standing : Standing}

theorem triple_prelogin [StdLib] (hcontext : standing.context = context config) :
    Triple (Ready standing) (prelogin platform config peer)
      (fun response link => (∃ payload, (preloginMessage platform config).encode [] = .ok payload) ∧
        ∃ src left, standing.arrivals.Gives src left ∧
          PreloginMessage.decode platform.driverVersion src = .ok response ∧
          link.Ready
            { standing.numbered.sent (preloginBytes platform config) with arrivals := left })
      (Cut standing (preloginBytes platform config)) := by
  have hrange : standing.context.SizeInRange := by
    rw [hcontext]
    exact Context.new_sizeInRange
  have hsend := triple_sendItem hrange .preLogin ((preloginMessage platform config).encode [])
    peer.preloginFates
  rw [hcontext] at hsend
  have hback : ∀ left link,
      link.Ready { standing.numbered.sent (preloginBytes platform config) with arrivals := left } →
      Cut standing (preloginBytes platform config) link := fun left link hready =>
    ⟨_, List.prefix_rfl, hready.written⟩
  refine triple_bind hsend fun _ => ?_
  intro link ⟨hencoded, _, hlink⟩
  have hcollect := (@triple_collectMessage (standing.numbered.sent
    (preloginBytes platform config)) []).weaken (fun _ hready => hready) (fun _ _ hafter => hafter)
    fun link hcut => show Cut standing (preloginBytes platform config) link from by
      obtain ⟨part, hpart, hwritten⟩ := hcut
      rw [List.prefix_nil.mp hpart, List.append_nil] at hwritten
      exact ⟨_, List.prefix_rfl, hwritten⟩
  refine triple_bind hcollect (fun src => ?_) link hlink
  refine triple_bind (triple_ofStop _ fun link ⟨left, _, hready⟩ => hback left link hready)
    fun response => ?_
  intro link ⟨hdecode, left, hgives, hready⟩
  split
  · exact hback left link hready
  · cases response.validateInstance config.instanceName with
    | error error => exact hback left link hready
    | ok value => exact ⟨hencoded, src, left, hgives, hdecode, hready⟩

end Stages

section Login

variable {platform : Platform} {config : Config} {peer : Peer} {standing : Standing}
  {encryption : EncryptionLevel} {Allowed : List (Channel × List UInt8) → Prop}

/-- What is allowed of a login that begins where a link stands. -/
structure Confines (platform : Platform) (config : Config)
    (Allowed : List (Channel × List UInt8) → Prop) (encryption : EncryptionLevel)
    (standing : Standing) : Prop where
  inside : ∀ bytes, Allowed (standing.earlier ++ [(standing.channel, standing.wire ++ bytes)])
  outside : encryption = .off → ∀ bytes, LoginBytes bytes → ∀ back,
    back = [] ∨ ReplyBytes platform config back →
      Allowed (standing.earlier ++ [(standing.channel, standing.wire ++ bytes)] ++ [(.raw, back)])

/-- A link behind a login message, on which the answer to a challenge may be sent. -/
structure Answering (platform : Platform) (config : Config)
    (Allowed : List (Channel × List UInt8) → Prop) (standing : Standing) : Prop where
  range : standing.context.SizeInRange
  reply : ∀ back, back = [] ∨ ReplyBytes platform config back →
    Allowed (standing.earlier ++ [(standing.channel, standing.wire ++ back)])

theorem Answering.ready {link : Link} (hanswering : Answering platform config Allowed standing)
    (hready : link.Ready standing) : Allowed link.written := by
  have hallowed := hanswering.reply [] (.inl rfl)
  rwa [List.append_nil, ← hready.written] at hallowed

/-- Listening does not change what may be written. -/
theorem Answering.heard (hanswering : Answering platform config Allowed standing)
    {context : Context} (hrange : context.SizeInRange) (arrivals : Arrivals) (buf : List UInt8) :
    Answering platform config Allowed
      { standing with context := context, arrivals := arrivals, buf := buf } :=
  ⟨hrange, hanswering.reply⟩

theorem Confines.cut {link : Link} {bytes : List UInt8}
    (hconfines : Confines platform config Allowed encryption standing)
    (hcut : link.Cut standing bytes) : Allowed link.written := by
  obtain ⟨part, -, hwritten⟩ := hcut
  rw [hwritten]
  exact hconfines.inside part

theorem loginBytes_item {context : Context} (hrange : context.SizeInRange) {message : LoginMessage}
    {payload : List UInt8} (hpayload : message.encodeToBoxedSlice = .ok payload) :
    LoginBytes (itemBytes context .login message.encodeToBoxedSlice) := by
  exact ⟨_, _, message, payload, Connection.payload_pos hrange, hpayload, by rw [hpayload]; rfl⟩

/-- A link behind a login message. -/
def LoggedIn (standing : Standing) (link : Link) : Prop :=
  ∃ bytes, LoginBytes bytes ∧ link.Ready (standing.numbered.sent bytes)

theorem triple_loginItem (hrange : standing.context.SizeInRange)
    (hconfines : Confines platform config Allowed encryption standing) (message : LoginMessage)
    (fates : List Fate) :
    Triple (Ready standing) (sendItem .login message.encodeToBoxedSlice fates)
      (fun _ link => LoggedIn standing link) (fun link => Allowed link.written) := by
  refine (triple_sendItem hrange .login message.encodeToBoxedSlice fates).weaken
    (fun _ hready => hready) ?_ fun _ hcut => hconfines.cut hcut
  intro _ link ⟨⟨payload, hpayload⟩, _, hready⟩
  exact ⟨_, loginBytes_item hrange hpayload, hready⟩

/-- Behind a login message the link is on the same stream, or at `Off` on the socket. -/
theorem triple_postLoginEncryption (hrange : standing.context.SizeInRange)
    (hconfines : Confines platform config Allowed encryption standing) :
    Triple (LoggedIn standing) (postLoginEncryption platform peer encryption)
      (fun _ link => ∃ after, Answering platform config Allowed after ∧ link.Ready after)
      (fun link => Allowed link.written) := by
  intro link ⟨bytes, hbytes, hready⟩
  unfold postLoginEncryption
  split
  next hoff =>
    simp only [Bool.and_eq_true, beq_iff_eq] at hoff
    refine ⟨_, ?_, hready.reframe .raw peer.afterLogin⟩
    exact ⟨hrange, hconfines.outside hoff.2 bytes hbytes⟩
  next =>
    refine ⟨_, ?_, hready⟩
    refine ⟨hrange, fun back _ => ?_⟩
    simp only [Standing.sent, Standing.numbered, List.append_assoc]
    exact hconfines.inside (bytes ++ back)

theorem triple_sensitiveLogin (hrange : standing.context.SizeInRange)
    (hconfines : Confines platform config Allowed encryption standing) (message : LoginMessage) :
    Triple (Ready standing) (sensitiveLogin platform peer message encryption)
      (fun _ link => ∃ after, Answering platform config Allowed after ∧ link.Ready after)
      (fun link => Allowed link.written) := by
  refine triple_bind (triple_ofFault _ fun link hready =>
    hconfines.cut (hready.cut [])) fun payload => ?_
  intro link ⟨hpayload, hlink⟩
  have hbytes := loginBytes_item hrange hpayload
  rw [hpayload] at hbytes
  have hid : Triple (Ready standing) nextPacketId
      (fun id link => id = standing.context.packetId ∧ link.Ready standing.numbered)
      (fun link => Allowed link.written) :=
    (triple_nextPacketId []).weaken (fun _ hready => hready) (fun _ _ hafter => hafter)
      fun _ hcut => hconfines.cut hcut
  have hsend := (triple_sendSensitiveLogin hrange payload peer.loginFates).weaken
    (fun _ hready => hready)
    (fun _ link hafter => show LoggedIn standing link from ⟨_, hbytes, hafter.2⟩)
    fun _ hcut => hconfines.cut hcut
  refine triple_bind hid (fun id => ?_) link hlink
  intro link ⟨hid, hlink⟩
  subst hid
  exact triple_bind hsend (fun _ => triple_postLoginEncryption hrange hconfines) link hlink

theorem of_winauthResponse {auth : Option WindowsAuth} {challenge token : List UInt8}
    (htoken : winauthResponse platform config auth challenge = .ok token) :
    platform.package auth (spn config) (some challenge) = .ok (some token) := by
  unfold winauthResponse at htoken
  cases hpackage : platform.package auth (spn config) (some challenge) with
  | error error =>
    rw [hpackage] at htoken
    cases htoken
  | ok answer =>
    rw [hpackage] at htoken
    cases answer with
    | none => cases htoken
    | some response =>
      cases htoken
      rfl

theorem of_packageResponse {auth : Option WindowsAuth} {challenge token : List UInt8}
    (htoken : packageResponse platform config auth challenge = .ok token) :
    ∃ answer, platform.package auth (spn config) (some challenge) = .ok answer ∧
      token = answer.getD [] := by
  unfold packageResponse at htoken
  cases hpackage : platform.package auth (spn config) (some challenge) with
  | error error =>
    rw [hpackage] at htoken
    cases htoken
  | ok answer =>
    rw [hpackage] at htoken
    cases htoken
    exact ⟨_, rfl, rfl⟩

variable [EncodingRs]

theorem triple_challenged (auth : Option WindowsAuth) (hrange : standing.context.SizeInRange)
    (hconfines : Confines platform config Allowed encryption standing)
    (first : Except Error (Option (List UInt8))) {respond : List UInt8 → Except Error (List UInt8)}
    (hauth : config.auth = auth.elim .integrated .windows)
    (hrespond : ∀ challenge token, respond challenge = .ok token → ∃ answer,
      platform.package auth (spn config) (some challenge) = .ok answer ∧ token = answer.getD [])
    (header : UInt8 → PacketHeader) (message : LoginMessage) :
    Triple (Ready standing) (challenged platform peer first respond header message encryption)
      (fun _ link => Allowed link.written) (fun link => Allowed link.written) := by
  refine triple_bind (triple_ofExcept first fun link hready =>
    hconfines.cut (hready.cut [])) fun bytes => ?_
  intro link ⟨_, hlink⟩
  refine triple_bind (triple_loginItem hrange hconfines (message.setIntegratedSecurity bytes)
    peer.loginFates) (fun _ => ?_) link hlink
  refine triple_bind (triple_postLoginEncryption hrange hconfines) fun _ => ?_
  intro link ⟨after, hanswering, hlink⟩
  have hlisten : Triple (Ready after) (ofFinished (flushSspi.run none))
      (fun _ link => ∃ after, Answering platform config Allowed after ∧ link.Ready after)
      (fun link => Allowed link.written) :=
    (triple_listen [] flushSspi none hanswering.range).weaken (fun _ hready => hready)
      (fun _ _ ⟨_, arrivals, buf, hcontext, hready⟩ =>
        ⟨_, hanswering.heard hcontext arrivals buf, hready⟩)
      fun _ ⟨part, hpart, hwritten⟩ => by
        rw [hwritten, List.prefix_nil.mp hpart]
        exact hanswering.reply [] (.inl rfl)
  refine triple_bind hlisten (fun challenge => ?_) link hlink
  refine triple_bind (triple_ofExcept _ fun link ⟨after, hanswering, hready⟩ =>
    hanswering.ready hready) fun token => ?_
  intro link ⟨htoken, after, hanswering, hlink⟩
  obtain ⟨answer, hpackage, rfl⟩ := hrespond challenge.bytes token htoken
  have hreply : ∀ part, part <+: itemBytes after.context header (.ok (answer.getD [])) →
      Allowed (after.earlier ++ [(after.channel, after.wire ++ part)]) := fun part hpart =>
    hanswering.reply part (.inr ⟨auth, challenge.bytes, answer, _, _, hauth, hpackage, hpart⟩)
  refine (triple_sendItem hanswering.range header (.ok (answer.getD [])) peer.replyFates).weaken
    (fun _ hready => hready) (fun _ link ⟨_, _, hready⟩ => ?_)
    (fun link ⟨part, hpart, hwritten⟩ => ?_) link hlink
  · rw [hready.written]
    exact hreply _ List.prefix_rfl
  · rw [hwritten]
    exact hreply part hpart

/-- A login keeps to what is allowed, by every method. -/
theorem triple_login (hrange : standing.context.SizeInRange)
    (hconfines : Confines platform config Allowed encryption standing)
    (prelogin : PreloginMessage) :
    Triple (Ready standing) (login platform config peer encryption prelogin)
      (fun _ link => Allowed link.written) (fun link => Allowed link.written) := by
  have hbehind : ∀ link : Link, (∃ after, Answering platform config Allowed after ∧
      link.Ready after) → Allowed link.written := fun link ⟨after, hanswering, hready⟩ =>
    hanswering.ready hready
  have hsensitive : ∀ message : LoginMessage,
      Triple (Ready standing) (sensitiveLogin platform peer message encryption)
        (fun _ link => Allowed link.written) (fun link => Allowed link.written) := fun message =>
    (triple_sensitiveLogin hrange hconfines message).weaken (fun _ hready => hready)
      (fun _ => hbehind) fun _ hcut => hcut
  have hpanic : Triple (Ready standing) (panic : Linked Unit)
      (fun _ link => Allowed link.written) (fun link => Allowed link.written) := fun link hready =>
    hconfines.cut (hready.cut [])
  unfold login
  cases hauth : config.auth with
  | none =>
    exact (triple_bind (triple_loginItem hrange hconfines _ peer.loginFates) fun _ =>
      triple_postLoginEncryption hrange hconfines).weaken (fun _ hready => hready)
      (fun _ => hbehind) fun _ hcut => hcut
  | sqlServer user password => exact hsensitive _
  | aadToken token => exact hsensitive _
  | integrated =>
    cases platform.features.security with
    | none => exact hpanic
    | winauth =>
      exact triple_challenged none hrange hconfines _ hauth
        (fun _ _ htoken => ⟨_, of_winauthResponse htoken, rfl⟩) .sspi _
    | gssapi =>
      exact triple_challenged none hrange hconfines _ hauth (fun _ _ => of_packageResponse) .login _
    | sspiRs => exact hpanic
    | sspiRsGssapi =>
      exact triple_challenged none hrange hconfines _ hauth (fun _ _ => of_packageResponse) .login _
  | windows user =>
    cases platform.features.security with
    | none => exact hpanic
    | winauth =>
      exact triple_challenged (some user) hrange hconfines _ hauth
        (fun _ _ htoken => ⟨_, of_winauthResponse htoken, rfl⟩) .login _
    | gssapi => exact hpanic
    | sspiRs =>
      exact triple_challenged (some user) hrange hconfines _ hauth (fun _ _ => of_packageResponse)
        .login _
    | sspiRsGssapi =>
      exact triple_challenged (some user) hrange hconfines _ hauth (fun _ _ => of_packageResponse)
        .login _

end Login

theorem negotiatedEncryption_cases {response : PreloginMessage} {features : Features}
    (htls : features.tls = true) {expected level : EncryptionLevel}
    (hlevel : response.negotiatedEncryption features expected = .ok level) :
    expected = .strict ∧ level = .strict ∨
      expected ≠ .strict ∧ (level = .on ∨
        level = .off ∧ expected = .off ∧ response.encryption = .off ∨
        level = .notSupported ∧ expected = .notSupported ∧
          response.encryption = .notSupported) := by
  unfold PreloginMessage.negotiatedEncryption at hlevel
  rw [if_pos htls] at hlevel
  generalize response.encryption = theirs at hlevel ⊢
  cases expected <;> cases theirs <;> cases hlevel <;> decide

section Handshake

variable {platform : Platform} {config : Config} {peer : Peer} {standing : Standing}

/-- A link in front of the pre-login, which in strict mode is on a TLS stream already. -/
inductive Fronted (config : Config) (peer : Peer) : Standing → Prop where
  | strict (hours : config.encryption = .strict) (arrivals : Arrivals) :
      Fronted config peer
        { earlier := [(.raw, [])], channel := .tls, wire := [], context := context config
          arrivals := arrivals, buf := [] }
  | clear (hours : config.encryption ≠ .strict) :
      Fronted config peer
        { earlier := [], channel := .raw, wire := [], context := context config
          arrivals := peer.clear, buf := [] }

theorem start_ready : (start config peer).Ready
    { earlier := [], channel := .raw, wire := [], context := context config
      arrivals := peer.clear, buf := [] } :=
  ⟨rfl, ⟨rfl, fun frame hframe => by cases hframe⟩, rfl⟩

theorem triple_createTlsStream :
    Triple (Ready standing) (createTlsStream peer)
      (fun _ link => ∃ arrivals, link.Ready
        { standing with
          earlier := standing.earlier ++ [(standing.channel, standing.wire)]
          channel := .tls
          wire := []
          arrivals := arrivals
          buf := [] })
      (Ready standing) := by
  intro link hready
  unfold createTlsStream
  cases peer.handshake with
  | none => exact hready
  | some result =>
    cases result with
    | error error => exact hready
    | ok arrivals => exact ⟨arrivals, hready.secured arrivals⟩

theorem triple_strictTls (htls : platform.features.tls = true) :
    Triple (· = start config peer) (strictTls platform config peer)
      (fun _ link => ∃ standing, Fronted config peer standing ∧ link.Ready standing)
      (fun link => Exposure platform config peer link.written) := by
  intro link hlink
  subst hlink
  unfold strictTls
  by_cases hstrict : config.encryption = .strict
  · rw [if_pos (by rw [htls, hstrict]; rfl)]
    refine (triple_createTlsStream _ start_ready).weaken (fun _ link ⟨arrivals, hready⟩ =>
      ⟨_, .strict hstrict arrivals, hready⟩) fun link hready => ?_
    rw [hready.written]
    exact .opening [] List.nil_prefix
  · rw [if_neg (by simp only [htls, Bool.true_and, beq_iff_eq, hstrict, not_false_eq_true])]
    exact ⟨_, .clear hstrict, start_ready⟩

/-- The answer to the pre-login, on a link that stands behind it. -/
def Responded (platform : Platform) (config : Config) (peer : Peer) (response : PreloginMessage)
    (link : Link) : Prop :=
  ∃ standing, Fronted config peer standing ∧ ∃ src left, standing.arrivals.Gives src left ∧
    PreloginMessage.decode platform.driverVersion src = .ok response ∧
    link.Ready { standing.numbered.sent (preloginBytes platform config) with arrivals := left }

theorem exposure_of_cut {link : Link} (hfronted : Fronted config peer standing)
    (hcut : link.Cut standing (preloginBytes platform config)) :
    Exposure platform config peer link.written := by
  obtain ⟨part, hpart, hwritten⟩ := hcut
  rw [hwritten]
  cases hfronted with
  | strict hours arrivals =>
    have hsecured := @Exposure.secured platform config peer part
    rw [opening, if_pos hours] at hsecured
    exact hsecured
  | clear hours =>
    refine .opening part ?_
    rw [opening, if_neg hours]
    exact hpart

theorem triple_responded [StdLib] :
    Triple (fun link => ∃ standing, Fronted config peer standing ∧ link.Ready standing)
      (prelogin platform config peer) (Responded platform config peer)
      (fun link => Exposure platform config peer link.written) := by
  intro link ⟨standing, hfronted, hready⟩
  have hcontext : standing.context = context config := by cases hfronted <;> rfl
  exact (triple_prelogin hcontext link hready).weaken
    (fun _ _ hafter => ⟨standing, hfronted, hafter.2⟩) fun _ hcut => exposure_of_cut hfronted hcut

theorem Responded.exposure {response : PreloginMessage} {link : Link}
    (hresponded : Responded platform config peer response link) :
    Exposure platform config peer link.written := by
  obtain ⟨standing, hfronted, src, left, -, -, hready⟩ := hresponded
  exact exposure_of_cut hfronted ⟨_, List.prefix_rfl, hready.written⟩

/-- What a login may write, where the two sides have agreed on how it is secured. -/
theorem triple_tlsHandshake (htls : platform.features.tls = true) {response : PreloginMessage}
    {encryption : EncryptionLevel}
    (hlevel : response.negotiatedEncryption platform.features config.encryption = .ok encryption) :
    Triple (Responded platform config peer response) (tlsHandshake platform config peer encryption)
      (fun _ link => ∃ standing, standing.context.SizeInRange ∧
        Confines platform config (Exposure platform config peer) encryption standing ∧
        link.Ready standing)
      (fun link => Exposure platform config peer link.written) := by
  intro link hresponded
  have hexposure := hresponded.exposure
  obtain ⟨standing, hfronted, src, left, hgives, hdecode, hready⟩ := hresponded
  have hrange : (context config).nextPacketId.2.SizeInRange := Context.new_sizeInRange
  have hsecured := @Exposure.secured platform config peer
  unfold tlsHandshake
  rw [if_pos htls]
  cases hfronted with
  | strict hours arrivals =>
    obtain ⟨-, rfl⟩ | ⟨hother, -⟩ := negotiatedEncryption_cases htls hlevel
    · rw [opening, if_pos hours] at hsecured
      refine ⟨_, ?_, ?_, hready⟩
      · exact hrange
      · exact ⟨fun bytes => hsecured (_ ++ bytes), fun hoff => by cases hoff⟩
    · exact absurd hours hother
  | clear hours =>
    rw [opening, if_neg hours] at hsecured
    have hchannel : link.channel = .raw := congrArg Standing.channel hready.stands
    -- a TLS stream over the socket, on which a login may write what it likes
    have htunnel : (encryption = .off → config.encryption = .off ∧ Offers platform peer .off) →
        Exit.Meets (fun _ link => ∃ standing, standing.context.SizeInRange ∧
            Confines platform config (Exposure platform config peer) encryption standing ∧
            link.Ready standing)
          (fun link => Exposure platform config peer link.written)
          ((wrapSocket peer).run link) := by
      intro hoff
      unfold wrapSocket
      simp only
      rw [if_pos hchannel]
      refine (triple_createTlsStream link hready).weaken (fun _ link ⟨arrivals, hready⟩ => ?_)
        fun link hready => exposure_of_cut (.clear hours) ⟨_, List.prefix_rfl, hready.written⟩
      refine ⟨_, ?_, ?_, hready⟩
      · exact hrange
      · refine ⟨fun bytes => hsecured bytes, fun hlevel bytes hbytes back hback => ?_⟩
        obtain ⟨hours', htheirs⟩ := hoff hlevel
        have hanswered := Exposure.answered bytes back hours' htheirs hbytes hback
        rw [opening, if_neg hours] at hanswered
        exact hanswered
    obtain ⟨hstrict, -⟩ | ⟨-, rfl | ⟨rfl, hoff, htheirs⟩ | ⟨rfl, hplain, htheirs⟩⟩ :=
      negotiatedEncryption_cases htls hlevel
    · exact absurd hstrict hours
    · exact htunnel fun hoff => by cases hoff
    · exact htunnel fun _ => ⟨hoff, src, left, response, hgives, hdecode, htheirs⟩
    · refine ⟨_, ?_, ?_, hready⟩
      · exact hrange
      · refine ⟨fun bytes => ?_, fun hoff => by cases hoff⟩
        exact .plain bytes hplain ⟨src, left, response, hgives, hdecode, htheirs⟩

end Handshake

/-- A handshake that runs into its bound leaves what it has reached. -/
theorem connect_state [StdLib] [EncodingRs] (platform : Platform) (config : Config)
    (peer : Peer) : (connect platform config peer).state =
      ((establish platform config peer).run (start config peer)).state := by
  unfold connect
  cases config.handshakeTimeout <;>
    cases (establish platform config peer).run (start config peer) <;> rfl

theorem triple_establish [StdLib] [EncodingRs] {platform : Platform} {config : Config}
    {peer : Peer} (htls : platform.features.tls = true) :
    Triple (· = start config peer) (establish platform config peer)
      (fun _ link => Exposure platform config peer link.written)
      (fun link => Exposure platform config peer link.written) := by
  refine triple_bind (triple_strictTls htls) fun _ => ?_
  refine triple_bind triple_responded fun response => ?_
  refine triple_bind (triple_ofExcept _ fun _ hresponded => hresponded.exposure)
    fun encryption => ?_
  intro link ⟨hlevel, hresponded⟩
  refine triple_bind (triple_tlsHandshake htls hlevel) (fun _ => ?_) link hresponded
  have hlogin : Triple (fun link => ∃ standing, standing.context.SizeInRange ∧
        Confines platform config (Exposure platform config peer) encryption standing ∧
        link.Ready standing) (login platform config peer encryption response)
      (fun _ link => Exposure platform config peer link.written)
      (fun link => Exposure platform config peer link.written) :=
    fun link ⟨standing, hrange, hconfines, hready⟩ =>
      triple_login hrange hconfines response link hready
  refine triple_bind hlogin fun _ => ?_
  exact triple_bind (triple_unwritten flushDone _) fun _ => triple_modify fun _ hseen => hseen

/-- With a TLS backend, whatever the other side does and wherever the handshake is cut
short, no login goes out in the clear, unless both sides have said that they have no
TLS; behind a login in TLS only the answer to a challenge does, at `Off` on both sides. -/
theorem connect_exposure [StdLib] [EncodingRs] (platform : Platform) (config : Config)
    (peer : Peer) (htls : platform.features.tls = true) :
    Exposure platform config peer (connect platform config peer).state.written := by
  rw [connect_state]
  exact (triple_establish htls).holds rfl

/-- A driver with TLS and without a security package. -/
def plainPlatform : Platform where
  features := { tls := true, tds80 := false, security := .none }
  build := .wraps
  driverVersion := 0
  computerName := "pc"
  package := fun _ _ _ => .ok none

/-- A user who asks for TLS. -/
def userConfig : Config :=
  { Config.new plainPlatform.features with
    encryption := .on
    auth := .sqlServer "sa" "p" }

/-- A server that has TLS on, and answers a login with a DONE. -/
def admittingPeer : Peer where
  clear := { packets := [responsePacket true [1, 0, 6, 0, 1, 0xff, 1]], ending := .silent }
  handshake := some (.ok
    { packets := [responsePacket true [0xfd, 0, 0, 0, 0, 0, 0, 0, 0, 0, 0, 0, 0]]
      ending := .silent })
  afterLogin := { packets := [], ending := .silent }
  preloginFates := []
  loginFates := []
  replyFates := []

theorem connect_exposure_admitted :
    Exposure plainPlatform userConfig admittingPeer
      (@connect plainPlatform userConfig admittingPeer .exact .ascii).state.written :=
  @connect_exposure .exact .ascii plainPlatform userConfig admittingPeer rfl

end Establish

end Tiberius
