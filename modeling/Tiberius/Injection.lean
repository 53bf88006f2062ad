import Tiberius.Exposure

/-!
What comes in the clear behind the answer to the pre-login. A connection that goes on
in TLS takes nothing of it over: as long as TLS comes up, and goes on, in the same way,
what others put there does not change how the handshake ends, what it writes, or the
connection that it leaves.
-/

namespace Tiberius

open Reading Staging

/-- A connection to which other packets come. -/
def Connection.hearing (conn : Connection) (arrivals : Arrivals) : Connection :=
  { conn with
    transport := { conn.transport with inbound := arrivals.packets, ending := arrivals.ending } }

/-- A connection as it is but for what it has heard. -/
def Connection.unheard (conn : Connection) : Connection :=
  { conn.hearing { packets := [], ending := .silent } with
    flushed := false
    transport := { (conn.hearing { packets := [], ending := .silent }).transport with polls := 0 } }

/-- A write that has left another connection. -/
def Attempt.map (f : Connection → Connection) : Attempt → Attempt
  | returned result conn => .returned result (f conn)
  | dropped conn => .dropped (f conn)
  | panicked conn => .panicked (f conn)
  | running conn => .running (f conn)

namespace Connection

variable (arrivals : Arrivals)

/-- Writing goes on alike where the rest of a write does. -/
theorem andThen_hearing (attempt : Attempt) {next : Connection → Attempt}
    (hnext : ∀ conn : Connection, next (conn.hearing arrivals) =
      (next conn).map fun conn => conn.hearing arrivals) :
    (attempt.map fun conn => conn.hearing arrivals).andThen next =
      (attempt.andThen next).map fun conn => conn.hearing arrivals := by
  cases attempt with
  | returned result conn =>
    cases result with
    | error error => rfl
    | ok value => exact hnext conn
  | dropped conn => rfl
  | panicked conn => rfl
  | running conn => rfl

theorem flushSink_hearing (fate : Fate) (conn : Connection) :
    (conn.hearing arrivals).flushSink fate =
      (conn.flushSink fate).map fun conn => conn.hearing arrivals := by
  cases fate <;> rfl

theorem sendLoop_hearing (message chunk fuel : ℕ) (header : PacketHeader) (payload : List UInt8)
    (fates : List Fate) (conn : Connection) :
    sendLoop message chunk fuel header payload fates (conn.hearing arrivals) =
      (sendLoop message chunk fuel header payload fates conn).map
        fun conn => conn.hearing arrivals := by
  induction fuel generalizing header payload fates conn with
  | zero => rfl
  | succ fuel ih =>
    rw [sendLoop, sendLoop]
    by_cases hpayload : payload.isEmpty
    · rw [if_pos hpayload, if_pos hpayload]
      exact flushSink_hearing arrivals _ conn
    · rw [if_neg hpayload, if_neg hpayload]
      have hwrite := flushSink_hearing arrivals (fates.headD .completes)
      simp only [writeToWire]
      rw [← andThen_hearing arrivals _ fun conn => ih _ _ fates.tail conn, ← hwrite]
      rfl

/-- What arrives at a connection makes no difference to what it sends. -/
theorem send_hearing (header : PacketHeader) (item : Except Error (List UInt8)) (fates : List Fate)
    (conn : Connection) :
    (conn.hearing arrivals).send header item fates =
      (conn.send header item fates).map fun conn => conn.hearing arrivals := by
  cases hguard : conn.ensureNotPoisoned with
  | error error =>
    have hother : (conn.hearing arrivals).ensureNotPoisoned = .error error := hguard
    unfold send
    simp only [hguard, hother]
    rfl
  | ok value =>
    have hother : (conn.hearing arrivals).ensureNotPoisoned = .ok value := hguard
    unfold send
    simp only [hguard, hother]
    cases hchunk : conn.context.chunkSize with
    | none =>
      have hother : (conn.hearing arrivals).context.chunkSize = none := hchunk
      simp only [hother]
      rfl
    | some chunk =>
      have hother : (conn.hearing arrivals).context.chunkSize = some chunk := hchunk
      simp only [hother]
      cases item with
      | error error => rfl
      | ok payload =>
        have hloop := sendLoop_hearing arrivals
          ({ conn with flushed := false } : Connection).openMessage.1 chunk (payload.length + 1)
          header payload fates ({ conn with flushed := false } : Connection).openMessage.2.poison
        exact (congrArg (fun attempt : Attempt => attempt.andThen fun conn =>
          .returned (.ok ()) conn.unpoison) hloop).trans (andThen_hearing arrivals _ fun _ => rfl)

/-- What has been read is not seen in what is not. -/
theorem Reads.unheard {conn after : Connection} (hreads : conn.Reads after)
    (hbuf : after.buf = conn.buf) : after.unheard = conn.unheard := by
  unfold Reads at hreads
  rw [hreads, hbuf]
  rfl

end Connection

namespace Link

def hearing (link : Link) (arrivals : Arrivals) : Link :=
  { link with conn := link.conn.hearing arrivals }

def unheard (link : Link) : Link := { link with conn := link.conn.unheard }

/-- Links that have come to the same, with other packets under way to each. -/
def Heard (arrivals arrivals' : Arrivals) (link link' : Link) : Prop :=
  ∃ base : Link, link = base.hearing arrivals ∧ link' = base.hearing arrivals'

/-- Links that have written the same. -/
def SameWritten (link link' : Link) : Prop := link.written = link'.written

theorem Heard.sameWritten {arrivals arrivals' : Arrivals} {link link' : Link}
    (hheard : Heard arrivals arrivals' link link') : SameWritten link link' := by
  obtain ⟨base, rfl, rfl⟩ := hheard
  rfl

theorem sameWritten_of_unheard {link link' : Link} (hlinks : link.unheard = link'.unheard) :
    SameWritten link link' := by
  have hwritten : link.unheard.written = link'.unheard.written := by rw [hlinks]
  exact hwritten

end Link

namespace Linked

open Stage Link

variable {arrivals arrivals' : Arrivals}

theorem ofAttempt_hearing {write : Connection → Attempt} (arrivals : Arrivals)
    (hwrite : ∀ conn, write (conn.hearing arrivals) =
      (write conn).map fun conn => conn.hearing arrivals) (link : Link) :
    (ofAttempt write).run (link.hearing arrivals) =
      ((ofAttempt write).run link).map fun link => link.hearing arrivals := by
  have hconn : (link.hearing arrivals).conn = link.conn.hearing arrivals := rfl
  simp only [ofAttempt, hconn, hwrite]
  cases write link.conn with
  | returned result conn => cases result <;> rfl
  | dropped conn => rfl
  | panicked conn => rfl
  | running conn => rfl

theorem sendItem_hearing (header : UInt8 → PacketHeader) (item : Except Fault (List UInt8))
    (fates : List Fate) (arrivals : Arrivals) (link : Link) :
    (sendItem header item fates).run (link.hearing arrivals) =
      ((sendItem header item fates).run link).map fun link => link.hearing arrivals := by
  have hsend := fun item => @ofAttempt_hearing (fun conn =>
    conn.send (header link.conn.context.packetId) item fates) arrivals fun conn =>
    conn.send_hearing arrivals (header link.conn.context.packetId) item fates
  cases item with
  | ok payload => exact hsend (.ok payload) { link with
      conn := { link.conn with context := link.conn.context.nextPacketId.2 } }
  | error fault =>
    cases fault with
    | error error => exact hsend (.error error) { link with
        conn := { link.conn with context := link.conn.context.nextPacketId.2 } }
    | panic =>
      change ((Stage.ofExcept link.conn.ensureNotPoisoned >>= fun _ => panic : Linked Unit)).run _ =
        (((Stage.ofExcept link.conn.ensureNotPoisoned >>= fun _ => panic : Linked Unit)).run
          _).map _
      cases link.conn.ensureNotPoisoned <;> rfl

theorem twin_sendItem (header : UInt8 → PacketHeader) (item : Except Fault (List UInt8))
    (fates : List Fate) :
    Twin (Heard arrivals arrivals') (sendItem header item fates) (sendItem header item fates)
      (fun _ => Heard arrivals arrivals') SameWritten := by
  intro link link' ⟨base, hlink, hlink'⟩
  rw [hlink, hlink', sendItem_hearing, sendItem_hearing]
  exact .of_map _ (fun _ link => ⟨link, rfl, rfl⟩) fun link => Heard.sameWritten ⟨link, rfl, rfl⟩

/-- Of one message there is left what has not been heard. -/
theorem collectMessage_hearing {src : List UInt8} {left : Arrivals}
    (hgives : arrivals.Gives src left) (link : Link) :
    ∃ after, (ofFinished Connection.collectMessage).run (link.hearing arrivals) =
      .returned src after ∧ after.unheard = link.unheard := by
  obtain ⟨after, hcollect⟩ := Connection.collect_returns hgives (arrivals.packets.length + 1)
    (Nat.lt_succ_self _) [] (link.conn.hearing arrivals) rfl
  obtain ⟨hreads, hbuf, -⟩ :=
    Connection.collect_spec (arrivals.packets.length + 1) [] (link.conn.hearing arrivals)
  rw [hcollect] at hreads hbuf
  have hrun : (link.conn.hearing arrivals).collectMessage = .returned (.ok src) after := hcollect
  have hunheard : after.unheard = (link.conn.hearing arrivals).unheard :=
    Connection.Reads.unheard hreads hbuf
  have hconn : (link.hearing arrivals).conn = link.conn.hearing arrivals := rfl
  refine ⟨{ link with conn := after }, ?_, ?_⟩
  · simp only [ofFinished, hconn, hrun]
    rfl
  · rw [Link.unheard, hunheard]
    rfl

end Linked

namespace Establish

open Stage Link Linked

variable {platform : Platform} {config : Config} {peer : Peer} {arrivals arrivals' : Arrivals}

/-- The answer to the pre-login is that of the first message, whatever comes behind it. -/
theorem twin_prelogin [StdLib] {src : List UInt8} {left left' : Arrivals}
    (hgives : arrivals.Gives src left) (hgives' : arrivals'.Gives src left') :
    Twin (Heard arrivals arrivals') (prelogin platform config peer)
      (prelogin platform config peer) (fun _ link link' => link.unheard = link'.unheard)
      SameWritten := by
  refine twin_bind (twin_sendItem _ _ _) fun _ => ?_
  have hcollect : Twin (Heard arrivals arrivals') (ofFinished Connection.collectMessage)
      (ofFinished Connection.collectMessage) (fun _ link link' => link.unheard = link'.unheard)
      SameWritten := by
    intro link link' ⟨base, hlink, hlink'⟩
    obtain ⟨after, hrun, hunheard⟩ := collectMessage_hearing hgives base
    obtain ⟨after', hrun', hunheard'⟩ := collectMessage_hearing hgives' base
    rw [hlink, hlink', hrun, hrun']
    exact .returned src after after' (hunheard.trans hunheard'.symm)
  refine twin_bind hcollect fun src => ?_
  intro link link' hlinks
  have hsame := sameWritten_of_unheard hlinks
  rw [bind_run, bind_run]
  cases PreloginMessage.decode platform.driverVersion src with
  | error stop =>
    cases stop with
    | error error => exact .failed error link link' hsame
    | outOfBounds => exact .panicked link link' hsame
    | endless => exact .panicked link link' hsame
  | ok response =>
    change Exit.Agree _ _ (Stage.run (if _ then _ else _) link) (Stage.run (if _ then _ else _) link')
    split
    · exact .panicked link link' hsame
    · cases hvalid : response.validateInstance config.instanceName with
      | error error =>
        rw [bind_run, bind_run]
        exact .failed error link link' hsame
      | ok value => exact .returned response link link' hlinks

/-- In the TLS stream over a socket nothing is left of what the socket has brought. -/
theorem twin_createTlsStream :
    Twin (fun link link' => link.unheard = link'.unheard) (createTlsStream peer)
      (createTlsStream peer) (fun _ => (· = ·)) SameWritten := by
  intro link link' hlinks
  have hsame := sameWritten_of_unheard hlinks
  unfold createTlsStream
  cases peer.handshake with
  | none => exact .stopped link link' hsame
  | some result =>
    cases result with
    | error error => exact .failed error link link' hsame
    | ok arrivals =>
      have hsecured : link.unheard.secured arrivals = link'.unheard.secured arrivals := by
        rw [hlinks]
      exact .returned () _ _ hsecured

theorem sameWritten_refl (link : Link) : SameWritten link link := rfl

/-- The negotiation and TLS, on links that have heard the same first message. -/
theorem twin_tlsHandshake (htls : platform.features.tls = true)
    (hours : config.encryption ≠ .notSupported) (hclear : config.encryption ≠ .strict)
    {response : PreloginMessage} {encryption : EncryptionLevel}
    (hlevel : response.negotiatedEncryption platform.features config.encryption = .ok encryption) :
    Twin (fun link link' => link.unheard = link'.unheard)
      (tlsHandshake platform config peer encryption) (tlsHandshake platform config peer encryption)
      (fun _ => (· = ·)) SameWritten := by
  intro link link' hlinks
  have hchannel : link.unheard.channel = link'.unheard.channel := by rw [hlinks]
  change link.channel = link'.channel at hchannel
  have htunnel : Exit.Agree (fun _ => (· = ·)) SameWritten ((wrapSocket peer).run link)
      ((wrapSocket peer).run link') := by
    unfold wrapSocket
    simp only [hchannel]
    split
    · exact twin_createTlsStream link link' hlinks
    · exact .panicked link link' (sameWritten_of_unheard hlinks)
  unfold tlsHandshake
  rw [if_pos htls]
  obtain ⟨hstrict, -⟩ | ⟨-, rfl | ⟨rfl, -⟩ | ⟨rfl, hplain, -⟩⟩ :=
    negotiatedEncryption_cases htls hlevel
  · exact absurd hstrict hclear
  · exact htunnel
  · exact htunnel
  · exact absurd hplain hours

/-- Where TLS is asked for, two runs of the handshake that differ in what comes in the
clear behind the answer to the pre-login end in the same way, TLS and what comes behind
it being the same: with one connection, or with one error and the same written. In strict
mode nothing that comes in the clear makes a difference. -/
theorem connect_uninjected [StdLib] [EncodingRs] (platform : Platform) (config : Config)
    (peer : Peer) (clear : Arrivals) (htls : platform.features.tls = true)
    (hours : config.encryption ≠ .notSupported)
    (hanswer : config.encryption ≠ .strict →
      ∃ src left left', peer.clear.Gives src left ∧ clear.Gives src left') :
    Exit.Agree (fun _ => (· = ·)) SameWritten (connect platform config peer)
      (connect platform config { peer with clear := clear }) := by
  have hestablish : Exit.Agree (fun _ => (· = ·)) SameWritten
      ((establish platform config peer).run (start config peer))
      ((establish platform config { peer with clear := clear }).run
        (start config { peer with clear := clear })) := by
    by_cases hstrict : config.encryption = .strict
    · have hfront : strictTls platform config peer = createTlsStream peer :=
        if_pos (by rw [htls, hstrict]; rfl)
      have htwin : Twin (fun link link' => link.unheard = link'.unheard)
          (establish platform config peer) (establish platform config peer) (fun _ => (· = ·))
          SameWritten := by
        unfold establish
        rw [hfront]
        exact twin_bind twin_createTlsStream fun _ => twin_same _ sameWritten_refl
      exact htwin _ _ rfl
    · have hfront : strictTls platform config peer = pure () := if_neg (by
        simp only [htls, Bool.true_and, beq_iff_eq, hstrict, not_false_eq_true])
      obtain ⟨src, left, left', hgives, hgives'⟩ := hanswer hstrict
      have htwin : Twin (Heard peer.clear clear) (establish platform config peer)
          (establish platform config peer) (fun _ => (· = ·)) SameWritten := by
        unfold establish
        rw [hfront]
        have hpure : Twin (Heard peer.clear clear) (pure () : Linked Unit) (pure ())
            (fun _ => Heard peer.clear clear) SameWritten := fun link link' hheard =>
          .returned () link link' hheard
        refine twin_bind hpure fun _ => ?_
        refine twin_bind (twin_prelogin hgives hgives') fun response => ?_
        refine twin_bind (twin_ofExcept _ fun _ _ => sameWritten_of_unheard) fun encryption => ?_
        intro link link' ⟨hlevel, hlinks⟩
        exact twin_bind (twin_tlsHandshake htls hours hstrict hlevel)
          (fun _ => twin_same _ sameWritten_refl) link link' hlinks
      exact htwin _ _ ⟨start config peer, rfl, rfl⟩
  unfold connect
  cases config.handshakeTimeout with
  | none => exact hestablish
  | some timeout =>
    generalize (establish platform config peer).run (start config peer) = exit at hestablish ⊢
    generalize (establish platform config { peer with clear := clear }).run
      (start config { peer with clear := clear }) = exit' at hestablish ⊢
    cases hestablish with
    | returned value link link' hafter => exact .returned value link link' hafter
    | failed error link link' hcut => exact .failed error link link' hcut
    | panicked link link' hcut => exact .panicked link link' hcut
    | stopped link link' hcut => exact .failed _ link link' hcut

/-- An answer that others have gone on with. -/
theorem connect_uninjected_appended :
    Exit.Agree (fun _ => (· = ·)) SameWritten
      (@connect plainPlatform userConfig admittingPeer .exact .ascii)
      (@connect plainPlatform userConfig { admittingPeer with
        clear :=
          { packets := admittingPeer.clear.packets ++ [responsePacket true [0xff, 0xff]]
            ending := .closed } } .exact .ascii) :=
  @connect_uninjected .exact .ascii plainPlatform userConfig admittingPeer _ rfl (by decide)
    fun _ => ⟨_, _, _, .last _ _ _ rfl, .last _ _ _ rfl⟩

end Establish

end Tiberius
