import Tiberius.Conversation
import Tiberius.Responses

/-!
How the handshake ends with a server that goes along with it. Where every await
completes, the pre-login is answered, TLS comes up if it was settled on, and a login of
one message is followed by a complete response, the handshake is over: it has
succeeded, or it has failed with what that response says, and nothing else.
-/

namespace Tiberius

open PacketCodec Reading Staging

/-- The first message on a stream is one. -/
theorem Arrivals.Gives.unique {arrivals left left' : Arrivals} {src src' : List UInt8}
    (hgives : arrivals.Gives src left) (hgives' : arrivals.Gives src' left') :
    src = src' ∧ left = left' := by
  induction hgives generalizing src' with
  | last packet rest ending hlast =>
    cases hgives' with
    | last => exact ⟨rfl, rfl⟩
    | more _ _ _ src left hopen hrest =>
      rw [hlast] at hopen
      cases hopen
  | more packet rest ending src left hopen hrest ih =>
    cases hgives' with
    | last _ _ _ hlast =>
      rw [hopen] at hlast
      cases hlast
    | more _ _ _ src' left' hopen' hrest' =>
      obtain ⟨rfl, rfl⟩ := ih hrest'
      exact ⟨rfl, rfl⟩
  | closed =>
    cases hgives'
    exact ⟨rfl, rfl⟩

def ReceivedToken.isDone : ReceivedToken → Bool
  | .done _ => true
  | _ => false

def ReceivedToken.routing : ReceivedToken → Option Error
  | .envChange (.routing host port) => some (.routing host port)
  | _ => none

/-- An error is told before a routing, and a login without a DONE has not ended. -/
def settleLogin : Option TokenError → Bool → Option Error → Except Error Unit
  | some error, _, _ => .error (.server error)
  | none, false, _ => .error (.protocol "Never got DONE token.")
  | none, true, some routing => .error routing
  | none, true, none => .ok ()

/-- The tokens in front of the DONE. -/
def beforeDone (tokens : List ReceivedToken) : List ReceivedToken :=
  tokens.takeWhile fun token => !token.isDone

/-- What a response to a login comes to: the first error or the last routing in front of
its DONE. -/
def loginOutcome (tokens : List ReceivedToken) : Except Error Unit :=
  settleLogin (firstError (beforeDone tokens)) (tokens.any ReceivedToken.isDone)
    ((beforeDone tokens).filterMap ReceivedToken.routing).getLast?

theorem flushDone_onTokens (error : Option TokenError) (routing : Option Error)
    (tokens : List ReceivedToken) :
    (flushDone.onTokens ((error.or (firstError tokens)).map .server) (error, routing) tokens).map
        (fun _ => ()) =
      settleLogin (error.or (firstError (beforeDone tokens))) (tokens.any ReceivedToken.isDone)
        (((beforeDone tokens).filterMap ReceivedToken.routing).getLast?.or routing) := by
  induction tokens generalizing error routing with
  | nil => cases error <;> rfl
  | cons token rest ih =>
    have hother : token.isDone = false → (∀ other, token ≠ .error other) → token.routing = none →
        flushDone.step (error, routing) token = .inl (error, routing) →
        (flushDone.onTokens ((error.or (firstError (token :: rest))).map .server) (error, routing)
            (token :: rest)).map (fun _ => ()) =
          settleLogin (error.or (firstError (beforeDone (token :: rest))))
            ((token :: rest).any ReceivedToken.isDone)
            (((beforeDone (token :: rest)).filterMap ReceivedToken.routing).getLast?.or routing) := by
      intro hdone herror hrouting hstep
      have hfirst : ∀ tokens, firstError (token :: tokens) = firstError tokens := by
        intro tokens
        cases token with
        | error other => exact absurd rfl (herror other)
        | _ => rfl
      rw [Consumer.onTokens, hstep, beforeDone, List.takeWhile_cons_of_pos (by rw [hdone]; rfl),
        hfirst, hfirst, List.any_cons, hdone, Bool.false_or, List.filterMap_cons_none hrouting]
      exact ih error routing
    cases token with
    | error other =>
      have hnext := ih (error.or (some other)) routing
      rw [Option.or_assoc, Option.or_assoc] at hnext
      exact hnext
    | done done =>
      have hstop : beforeDone (.done done :: rest) = [] := rfl
      rw [hstop]
      cases error with
      | some error => rfl
      | none => cases routing <;> rfl
    | envChange change =>
      cases change with
      | routing host port =>
        have hnext := ih error (some (.routing host port))
        have hlast : ∀ routings : List Error, ((.routing host port :: routings).getLast?).or routing =
            routings.getLast?.or (some (.routing host port)) := by
          intro routings
          rw [List.getLast?_cons]
          cases routings.getLast? <;> rfl
        rw [← hlast] at hnext
        exact hnext
      | _ => exact hother rfl (fun _ h => by cases h) rfl rfl
    | _ => exact hother rfl (fun _ h => by cases h) rfl rfl

namespace Connection

theorem writeFrames_completes (message : ℕ) (frames : List (List UInt8)) (conn : Connection) :
    ∃ after, conn.writeFrames message frames [] = .returned (.ok ()) after := by
  induction frames generalizing conn with
  | nil => exact ⟨conn, rfl⟩
  | cons frame rest ih => exact ih _

theorem sendSensitiveLogin_completes {conn : Connection}
    (husable : conn.ensureNotPoisoned = .ok ()) (hrange : conn.context.SizeInRange)
    (header : PacketHeader) (payload : List UInt8) :
    ∃ after, conn.sendSensitiveLogin header payload [] = .returned (.ok ()) after := by
  obtain ⟨hchunk, hpos⟩ := chunk_of_range hrange
  unfold sendSensitiveLogin
  simp only [husable, hchunk, frameSensitiveLogin_eq hpos]
  obtain ⟨after, hframes⟩ := writeFrames_completes
    (openMessage { conn with flushed := false }).1
    ((messagePackets header (conn.context.packetSize.toNat - headerBytes) payload).map
      fun packet => packet.encode []) (openMessage { conn with flushed := false }).2.poison
  rw [hframes]
  exact ⟨_, rfl⟩

end Connection

namespace Linked

open Stage Link

variable {standing : Standing} {link : Link}

theorem ofAttempt_returns {write : Connection → Attempt} {after : Connection}
    (hwrite : write link.conn = .returned (.ok ()) after) :
    (ofAttempt write).run link = .returned () { link with conn := after } := by
  simp only [ofAttempt, hwrite]

/-- A message whose awaits complete is sent. -/
theorem sendItem_returns (hrange : standing.context.SizeInRange) (hready : link.Ready standing)
    (header : UInt8 → PacketHeader) (payload : List UInt8) :
    ∃ after, (sendItem header (.ok payload) []).run link = .returned () after ∧
      after.conn.flushed = false ∧
      after.Ready (standing.numbered.sent (itemBytes standing.context header (.ok payload))) := by
  have hsize : link.conn.context.SizeInRange := by
    rw [hready.context]
    exact hrange
  obtain ⟨hchunk, hpos⟩ := Connection.chunk_of_range hsize
  obtain ⟨after, hsend, -⟩ := @Connection.send_completes
    { link.conn with context := link.conn.context.nextPacketId.2 } _ hready.usable hready.clean
    hchunk hpos (header link.conn.context.packetId) payload
  have hrun : (sendItem header (.ok payload) []).run link = .returned () { link with conn := after } :=
    @ofAttempt_returns { link with
      conn := { link.conn with context := link.conn.context.nextPacketId.2 } } _ _ hsend
  have hmeets := triple_sendItem hrange header (.ok payload) [] link hready
  rw [hrun] at hmeets
  exact ⟨_, hrun, hmeets.2⟩

theorem collectMessage_returns (hready : link.Ready standing) {src : List UInt8} {left : Arrivals}
    (hgives : standing.arrivals.Gives src left) :
    ∃ after, (ofFinished Connection.collectMessage).run link = .returned src after ∧
      after.Ready { standing with arrivals := left } := by
  have harrivals : link.conn.arrivals = standing.arrivals := by
    rw [← hready.stands]
    rfl
  obtain ⟨after, hcollect⟩ := Connection.collect_returns hgives
    (link.conn.transport.inbound.length + 1) (by rw [← harrivals]; exact Nat.lt_succ_self _) []
    link.conn harrivals
  have hrun : (ofFinished Connection.collectMessage).run link =
      .returned src { link with conn := after } := by
    have hmessage : link.conn.collectMessage = .returned (.ok src) after := hcollect
    simp only [ofFinished, hmessage]
  have hmeets := triple_collectMessage [] link hready
  rw [hrun] at hmeets
  obtain ⟨left', hgives', hafter⟩ := hmeets
  obtain ⟨-, rfl⟩ := hgives.unique hgives'
  exact ⟨_, hrun, hafter⟩

theorem sendSensitiveLogin_returns (hrange : standing.context.SizeInRange)
    (hready : link.Ready standing.numbered) (payload : List UInt8) :
    ∃ after, (ofAttempt fun conn => conn.sendSensitiveLogin (.login standing.context.packetId)
        payload []).run link = .returned () after ∧
      after.conn.flushed = false ∧
      after.Ready (standing.numbered.sent (itemBytes standing.context .login (.ok payload))) := by
  obtain ⟨after, hsend⟩ := Connection.sendSensitiveLogin_completes hready.usable
    (by rw [hready.context]; exact hrange) (.login standing.context.packetId) payload
  have hrun := @ofAttempt_returns link (fun conn =>
    conn.sendSensitiveLogin (.login standing.context.packetId) payload []) _ hsend
  have hmeets := triple_sendSensitiveLogin hrange payload [] link hready
  rw [hrun] at hmeets
  exact ⟨_, hrun, hmeets⟩

end Linked

namespace Establish

open Stage Link Linked

section Statement

variable (platform : Platform) (config : Config) (peer : Peer)

/-- A login that is over with one message. -/
def OneMessage : Prop :=
  match config.auth with
  | .none | .sqlServer _ _ | .aadToken _ => True
  | .integrated | .windows _ => False

/-- A server that goes along with the handshake up to its response to the login. -/
structure Cooperates [StdLib] [EncodingRs] (response : PreloginMessage) (answer : Response)
    (tokens : List ReceivedToken) : Prop where
  prelogins : peer.preloginFates = []
  logins : peer.loginFates = []
  asked : ∃ src, (preloginMessage platform config).encode [] = .ok src
  thread : ¬(platform.build = .panics ∧ response.threadId ≠ 0)
  valid : response.validateInstance config.instanceName = .ok ()
  answered : ∃ encryption first src left last later,
    firstArrivals platform config peer = some (.ok first) ∧ first.Gives src left ∧
    PreloginMessage.decode platform.driverVersion src = .ok response ∧
    response.negotiatedEncryption platform.features config.encryption = .ok encryption ∧
    lastArrivals platform config peer encryption left = some (.ok last) ∧
    last.packets = answer.packets ++ later
  carries : answer.Carries (context config).nextPacketId.2.nextPacketId.2 tokens

end Statement

section Returns

variable {platform : Platform} {config : Config} {peer : Peer} {standing : Standing} {link : Link}

theorem strictTls_returns {first : Arrivals}
    (hfirst : firstArrivals platform config peer = some (.ok first)) :
    ∃ after standing, (strictTls platform config peer).run (start config peer) =
        .returned () after ∧ after.Ready standing ∧ standing.context = context config ∧
      standing.arrivals = first ∧ standing.buf = [] ∧
      (standing.channel = .raw ∨ platform.features.tls = true ∧ config.encryption = .strict) := by
  unfold firstArrivals at hfirst
  unfold strictTls
  by_cases hstrict : (platform.features.tls && config.encryption == .strict) = true
  · rw [if_pos hstrict] at hfirst ⊢
    have hboth := hstrict
    rw [Bool.and_eq_true, beq_iff_eq] at hboth
    refine ⟨(start config peer).secured first, _, ?_, start_ready.secured first, rfl, rfl, rfl,
      .inr hboth⟩
    simp only [createTlsStream, hfirst]
  · rw [if_neg hstrict] at hfirst ⊢
    have hclear : peer.clear = first := by
      injection hfirst with hfirst
      exact Except.ok.inj hfirst
    exact ⟨_, _, rfl, start_ready, rfl, hclear, rfl, .inl rfl⟩

theorem prelogin_returns [StdLib] {prelogin src : List UInt8} {left : Arrivals}
    {response : PreloginMessage} (hfates : peer.preloginFates = [])
    (hprelogin : (preloginMessage platform config).encode [] = .ok prelogin)
    (hgives : standing.arrivals.Gives src left)
    (hdecode : PreloginMessage.decode platform.driverVersion src = .ok response)
    (hthread : ¬(platform.build = .panics ∧ response.threadId ≠ 0))
    (hvalid : response.validateInstance config.instanceName = .ok ())
    (hcontext : standing.context = context config) (hready : link.Ready standing) :
    ∃ after standing', (Establish.prelogin platform config peer).run link =
        .returned response after ∧ after.Ready standing' ∧
      standing'.context = (context config).nextPacketId.2 ∧ standing'.arrivals = left ∧
      standing'.buf = standing.buf ∧ standing'.channel = standing.channel := by
  have hrange : standing.context.SizeInRange := by
    rw [hcontext]
    exact Context.new_sizeInRange
  obtain ⟨sent, hsend, -, hsent⟩ := sendItem_returns hrange hready .preLogin prelogin
  obtain ⟨after, hcollect, hafter⟩ := collectMessage_returns hsent hgives
  refine ⟨after, _, ?_, hafter, ?_, rfl, rfl, rfl⟩
  · unfold Establish.prelogin
    rw [hprelogin, hfates, bind_returned hsend, bind_returned hcollect, hdecode]
    change Stage.run (if _ then Stage.panic else _) after = _
    rw [if_neg hthread, hvalid]
    rfl
  · rw [← hcontext]
    rfl

theorem tlsHandshake_returns {response : PreloginMessage} {encryption : EncryptionLevel}
    {last : Arrivals}
    (hchannel : standing.channel = .raw ∨
      platform.features.tls = true ∧ config.encryption = .strict)
    (hlevel : response.negotiatedEncryption platform.features config.encryption = .ok encryption)
    (hlast : lastArrivals platform config peer encryption standing.arrivals = some (.ok last))
    (hbuf : standing.buf = []) (hready : link.Ready standing) :
    ∃ after standing', (tlsHandshake platform config peer encryption).run link =
        .returned () after ∧ after.Ready standing' ∧ standing'.context = standing.context ∧
      standing'.buf = [] ∧
      if platform.features.tls && encryption == .off then last = peer.afterLogin
      else standing'.arrivals = last := by
  unfold lastArrivals at hlast
  unfold tlsHandshake
  cases htls : platform.features.tls with
  | false =>
    rw [htls, if_neg Bool.false_ne_true] at hlast
    rw [if_neg Bool.false_ne_true]
    cases hbackend : checkTlsBackendAvailable config.encryption with
    | error error =>
      rw [hbackend] at hlast
      cases hlast
    | ok value =>
      rw [hbackend] at hlast
      cases hlast
      exact ⟨link, standing, rfl, hready, rfl, hbuf, rfl⟩
  | true =>
    rw [htls, if_pos rfl] at hlast
    rw [if_pos rfl]
    have htunnel : ∀ inside, peer.handshake = some (.ok inside) → config.encryption ≠ .strict →
        ∃ after standing', (wrapSocket peer).run link = .returned () after ∧
          after.Ready standing' ∧ standing'.context = standing.context ∧ standing'.buf = [] ∧
          standing'.arrivals = inside := by
      intro inside hhandshake hclear
      have hraw : link.channel = .raw := by
        obtain hraw | ⟨-, hstrict⟩ := hchannel
        · rw [← hready.stands] at hraw
          exact hraw
        · exact absurd hstrict hclear
      refine ⟨link.secured inside, _, ?_, hready.secured inside, rfl, rfl, rfl⟩
      simp only [wrapSocket, if_pos hraw, createTlsStream, hhandshake]
    obtain ⟨-, rfl⟩ | ⟨hclear, rfl | ⟨rfl, -⟩ | ⟨rfl, -⟩⟩ := negotiatedEncryption_cases htls hlevel
    · cases hlast
      exact ⟨link, standing, rfl, hready, rfl, hbuf, rfl⟩
    · exact htunnel last hlast hclear
    · cases hhandshake : peer.handshake with
      | none =>
        rw [hhandshake] at hlast
        cases hlast
      | some result =>
        cases result with
        | error error =>
          rw [hhandshake] at hlast
          cases hlast
        | ok inside =>
          rw [hhandshake] at hlast
          cases hlast
          obtain ⟨after, standing', hrun, hafter, hcontext, hbuf', -⟩ :=
            htunnel inside hhandshake hclear
          exact ⟨after, standing', hrun, hafter, hcontext, hbuf', rfl⟩
    · cases hlast
      exact ⟨link, standing, rfl, hready, rfl, hbuf, rfl⟩

/-- Behind a login message the rest comes where the two sides have settled on. -/
theorem postLoginEncryption_returns {encryption : EncryptionLevel} {last : Arrivals}
    (hlast : if platform.features.tls && encryption == .off then last = peer.afterLogin
      else standing.arrivals = last)
    (hflushed : link.conn.flushed = false) (hbuf : standing.buf = []) (hready : link.Ready standing) :
    ∃ after standing', (postLoginEncryption platform peer encryption).run link =
        .returned () after ∧ after.conn.flushed = false ∧ after.Ready standing' ∧
      standing'.context = standing.context ∧ standing'.buf = [] ∧ standing'.arrivals = last := by
  unfold postLoginEncryption
  cases hoff : platform.features.tls && encryption == .off with
  | true =>
    rw [hoff, if_pos rfl] at hlast
    rw [if_pos rfl]
    exact ⟨_, _, rfl, hflushed, hready.reframe .raw peer.afterLogin, rfl, hbuf, hlast.symm⟩
  | false =>
    rw [hoff, if_neg Bool.false_ne_true] at hlast
    rw [if_neg Bool.false_ne_true]
    exact ⟨link, standing, rfl, hflushed, hready, rfl, hbuf, hlast⟩

theorem login_returns [EncodingRs] {response : PreloginMessage} {encryption : EncryptionLevel}
    {last : Arrivals} (hone : OneMessage config) (hfates : peer.loginFates = [])
    (hlast : if platform.features.tls && encryption == .off then last = peer.afterLogin
      else standing.arrivals = last)
    (hrange : standing.context.SizeInRange) (hbuf : standing.buf = [])
    (hready : link.Ready standing) :
    ∃ after standing', (Establish.login platform config peer encryption response).run link =
        .returned () after ∧ after.conn.flushed = false ∧ after.Ready standing' ∧
      standing'.context = standing.context.nextPacketId.2 ∧ standing'.buf = [] ∧
      standing'.arrivals = last := by
  have hitem : ∀ message : LoginMessage, ∃ after standing',
      (sendItem .login message.encodeToBoxedSlice peer.loginFates >>= fun _ =>
        postLoginEncryption platform peer encryption).run link = .returned () after ∧
        after.conn.flushed = false ∧ after.Ready standing' ∧
        standing'.context = standing.context.nextPacketId.2 ∧ standing'.buf = [] ∧
        standing'.arrivals = last := by
    intro message
    obtain ⟨sent, hsend, hflushed, hsent⟩ :=
      sendItem_returns hrange hready .login message.layout
    obtain ⟨after, standing', hpost, hafter⟩ :=
      @postLoginEncryption_returns platform peer (standing.numbered.sent
        (itemBytes standing.context .login (.ok message.layout))) sent encryption last hlast
        hflushed hbuf hsent
    refine ⟨after, standing', ?_, hafter⟩
    rw [message.encode_eq, hfates, bind_returned hsend, hpost]
  have hsensitive : ∀ message : LoginMessage, ∃ after standing',
      (sensitiveLogin platform peer message encryption).run link = .returned () after ∧
        after.conn.flushed = false ∧ after.Ready standing' ∧
        standing'.context = standing.context.nextPacketId.2 ∧ standing'.buf = [] ∧
        standing'.arrivals = last := by
    intro message
    have hnumbered : Link.Ready standing.numbered { link with
        conn := { link.conn with context := link.conn.context.nextPacketId.2 } } := by
      obtain ⟨hstands, hclean, husable⟩ := hready
      subst hstands
      exact ⟨rfl, hclean, husable⟩
    obtain ⟨sent, hsend, hflushed, hsent⟩ :=
      sendSensitiveLogin_returns hrange hnumbered message.layout
    obtain ⟨after, standing', hpost, hafter⟩ :=
      @postLoginEncryption_returns platform peer (standing.numbered.sent
        (itemBytes standing.context .login (.ok message.layout))) sent encryption last hlast
        hflushed hbuf hsent
    refine ⟨after, standing', ?_, hafter⟩
    have hid : link.conn.context.packetId = standing.context.packetId := by rw [hready.context]
    unfold sensitiveLogin
    rw [message.encode_eq, hfates]
    change ((ofAttempt fun conn =>
      conn.sendSensitiveLogin (.login link.conn.context.packetId) message.layout []) >>= fun _ =>
      postLoginEncryption platform peer encryption).run _ = _
    rw [hid, bind_returned hsend, hpost]
  unfold Establish.login
  unfold OneMessage at hone
  cases hauth : config.auth with
  | none => exact hitem _
  | sqlServer user password => exact hsensitive _
  | aadToken token => exact hsensitive _
  | integrated =>
    rw [hauth] at hone
    exact hone.elim
  | windows user =>
    rw [hauth] at hone
    exact hone.elim

/-- The response to a login decides how the handshake ends. -/
theorem flushDone_returns [EncodingRs] {answer : Response} {later : List Packet}
    {tokens : List ReceivedToken} (hready : link.Ready standing)
    (hflushed : link.conn.flushed = false) (hbuf : standing.buf = [])
    (hpackets : standing.arrivals.packets = answer.packets ++ later)
    (hcarries : answer.Carries standing.context tokens) :
    ∃ after, (ofFinished (flushDone.run (none, none)) >>= fun _ => armCommandTimeout config).run
      link = match loginOutcome tokens with
        | .ok () => .returned () after
        | .error error => .failed error after := by
  have hstands := hready.stands
  have hawaits : link.conn.Awaits answer later := by
    subst hstands
    exact ⟨hpackets, hflushed, hbuf⟩
  rw [← hready.context] at hcarries
  obtain ⟨after, hrun⟩ := Consumer.run_of_carries flushDone (none, none) hawaits hcarries
  have houtcome : (flushDone.onResponse (none, none) tokens).map (fun _ => ()) =
      loginOutcome tokens := by
    have hsettled := flushDone_onTokens none none tokens
    rw [Option.none_or, Option.none_or, Option.or_none, ← finalError_eq] at hsettled
    exact hsettled
  rw [← houtcome]
  generalize flushDone.onResponse (none, none) tokens = result at hrun
  cases result with
  | ok done =>
    refine ⟨{ link with
      conn := { after with
        context := { after.context with commandTimeout := config.commandTimeout } } }, ?_⟩
    rw [bind_run]
    simp only [ofFinished, hrun]
    rfl
  | error error =>
    refine ⟨{ link with conn := after }, ?_⟩
    rw [bind_run]
    simp only [ofFinished, hrun]
    rfl

end Returns

/-- With a server that goes along, the handshake is over: it has succeeded exactly if
the response to the login has a DONE with no error and no routing in front of it, and
has failed with the first error, or the last routing, otherwise. -/
theorem connect_admits [StdLib] [EncodingRs] (platform : Platform) (config : Config) (peer : Peer)
    (response : PreloginMessage) (answer : Response) (tokens : List ReceivedToken)
    (hone : OneMessage config)
    (hcooperates : Cooperates platform config peer response answer tokens) :
    ∃ link, connect platform config peer = match loginOutcome tokens with
      | .ok () => .returned () link
      | .error error => .failed error link := by
  obtain ⟨hprelogins, hlogins, ⟨prelogin, hprelogin⟩, hthread, hvalid, ⟨encryption, first, src, left,
    last, later, hfirst, hgives, hdecode, hlevel, hlast, hpackets⟩, hcarries⟩ := hcooperates
  have hrange : (context config).nextPacketId.2.SizeInRange := Context.new_sizeInRange
  obtain ⟨link₁, standing₁, hrun₁, hready₁, hcontext₁, rfl, hbuf₁, hchannel₁⟩ :=
    strictTls_returns hfirst
  obtain ⟨link₂, standing₂, hrun₂, hready₂, hcontext₂, rfl, hbuf₂, hchannel₂⟩ :=
    prelogin_returns hprelogins hprelogin hgives hdecode hthread hvalid hcontext₁ hready₁
  rw [hbuf₁] at hbuf₂
  rw [← hchannel₂] at hchannel₁
  obtain ⟨link₃, standing₃, hrun₃, hready₃, hcontext₃, hbuf₃, hlast₃⟩ :=
    tlsHandshake_returns hchannel₁ hlevel hlast hbuf₂ hready₂
  rw [hcontext₂] at hcontext₃
  obtain ⟨link₄, standing₄, hrun₄, hflushed, hready₄, hcontext₄, hbuf₄, rfl⟩ :=
    @login_returns platform config peer standing₃ link₃ _ response encryption last hone hlogins
      hlast₃ (by rw [hcontext₃]; exact hrange) hbuf₃ hready₃
  rw [hcontext₃] at hcontext₄
  rw [← hcontext₄] at hcarries
  obtain ⟨link, hrun⟩ := @flushDone_returns config standing₄ link₄ _ answer later tokens hready₄
    hflushed hbuf₄ hpackets hcarries
  refine ⟨link, ?_⟩
  have hestablish : (establish platform config peer).run (start config peer) =
      match loginOutcome tokens with
      | .ok () => .returned () link
      | .error error => .failed error link := by
    unfold establish
    have hagreed : (Stage.ofExcept (.ok encryption) : Linked EncryptionLevel).run link₂ =
        .returned encryption link₂ := rfl
    rw [bind_returned hrun₁, bind_returned hrun₂, hlevel, bind_returned hagreed,
      bind_returned hrun₃, bind_returned hrun₄, hrun]
  rw [connect, hestablish]
  cases loginOutcome tokens <;> cases config.handshakeTimeout <;> rfl

/-- The response of `admittingPeer` to a login. -/
def admission : Response where
  body := []
  last := responsePacket true [0xfd, 0, 0, 0, 0, 0, 0, 0, 0, 0, 0, 0, 0]
  body_open := Response.nil_open
  last_ends := rfl

theorem admittingPeer_cooperates :
    @Cooperates plainPlatform userConfig admittingPeer .exact .ascii
      { PreloginMessage.new 0 with encryption := .on } admission
      [.done { status := .fromBitsTruncate 0, curCmd := 0, doneRows := 0 }] := by
  refine @Cooperates.mk plainPlatform userConfig admittingPeer .exact .ascii _ _ _ rfl rfl
    ⟨_, rfl⟩ (fun hbuild => by cases hbuild.1) rfl ?_ ?_
  · exact ⟨.on, _, _, _, _, [], rfl, .last _ _ _ rfl, rfl, rfl, rfl, rfl⟩
  · exact @Response.Carries.mk .ascii _ _ _ ⟨_, rfl⟩ (by decide)

theorem connect_admits_user :
    ∃ link, @connect plainPlatform userConfig admittingPeer .exact .ascii = .returned () link :=
  @connect_admits .exact .ascii plainPlatform userConfig admittingPeer _ admission _ trivial
    admittingPeer_cooperates

end Establish

end Tiberius
