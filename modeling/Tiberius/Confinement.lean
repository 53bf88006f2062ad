import Tiberius.Establish
import Tiberius.Messages

/-!
What a stage on a link writes. A message that is sent stands on the wire in full, or
in part where the stage was cut short; listening writes nothing. What arrives is
taken a message at a time, and what comes behind it is left there.
-/

namespace Tiberius

open PacketCodec Reading Staging

/-- Listening to tokens changes the reading half of a connection and its context. -/
structure Connection.Listened (conn after : Connection) : Prop where
  wire : after.transport.wire = conn.transport.wire
  sink : after.transport.sink = conn.transport.sink
  frames : after.transport.frames = conn.transport.frames
  poisoned : after.poisoned = conn.poisoned
  desync : after.commandDesync = conn.commandDesync
  range : conn.context.SizeInRange → after.context.SizeInRange

namespace Connection

variable {conn middle after : Connection}

theorem Listened.refl (conn : Connection) : conn.Listened conn := ⟨rfl, rfl, rfl, rfl, rfl, id⟩

theorem Listened.trans (hfirst : conn.Listened middle) (hsecond : middle.Listened after) :
    conn.Listened after where
  wire := hsecond.wire.trans hfirst.wire
  sink := hsecond.sink.trans hfirst.sink
  frames := hsecond.frames.trans hfirst.frames
  poisoned := hsecond.poisoned.trans hfirst.poisoned
  desync := hsecond.desync.trans hfirst.desync
  range := hsecond.range ∘ hfirst.range

theorem Reads.listened (hreads : conn.Reads after) : conn.Listened after := by
  unfold Reads at hreads
  rw [hreads]
  exact ⟨rfl, rfl, rfl, rfl, rfl, id⟩

theorem Listened.clean (hlistened : conn.Listened after) (hclean : conn.transport.Clean) :
    after.transport.Clean where
  sink := by rw [hlistened.sink, hclean.sink]
  frames := by rw [hlistened.frames]; exact hclean.frames

theorem Listened.usable (hlistened : conn.Listened after)
    (husable : conn.ensureNotPoisoned = .ok ()) : after.ensureNotPoisoned = .ok () := by
  rw [ensureNotPoisoned, hlistened.poisoned, hlistened.desync]
  exact husable

end Connection

section Listening

variable [EncodingRs]

theorem TokenStream.resume_listened (stream : TokenStream) (reader : Reader ReceivedToken) :
    stream.conn.Listened (stream.resume reader).conn := by
  obtain ⟨after, hreads, hconn | ⟨token, context, hreceive, hconn⟩⟩ := stream.resume_reads reader
  · rw [hconn]
    exact hreads.listened
  · rw [hconn]
    have hlistened := hreads.listened
    exact ⟨hlistened.wire, hlistened.sink, hlistened.frames, hlistened.poisoned,
      hlistened.desync, fun hrange =>
        Context.receive_sizeInRange (hlistened.range hrange) hreceive⟩

theorem TokenStream.next_listened (stream : TokenStream) :
    stream.conn.Listened stream.next.conn := by
  unfold next
  split
  · unfold finish
    cases stream.lastError <;> exact .refl _
  · exact stream.resume_listened ReceivedToken.decode

theorem Consumer.onStream_listened {σ α : Type} (consumer : Consumer σ α) (fuel : ℕ) (state : σ)
    (stream : TokenStream) : stream.conn.Listened (consumer.onStream fuel state stream).conn := by
  induction fuel generalizing state stream with
  | zero => exact .refl _
  | succ fuel ih =>
    have hnext := stream.next_listened
    rw [onStream]
    cases hanswer : stream.next with
    | token token stream =>
      rw [hanswer] at hnext
      simp only
      cases consumer.step state token with
      | inl state => exact hnext.trans (ih state stream)
      | inr result => exact hnext
    | finished conn =>
      rw [hanswer] at hnext
      exact hnext
    | failed error conn =>
      rw [hanswer] at hnext
      exact hnext
    | panicked conn =>
      rw [hanswer] at hnext
      exact hnext
    | pending left stream =>
      rw [hanswer] at hnext
      exact hnext

end Listening

/-- The bytes of the first message on a stream, up to a packet that ends it or to the
end of the stream, and what comes behind them. -/
inductive Arrivals.Gives : Arrivals → List UInt8 → Arrivals → Prop where
  | last (packet : Packet) (rest : List Packet) (ending : Ending) (hlast : packet.isLast = true) :
      Gives ⟨packet :: rest, ending⟩ packet.payload ⟨rest, ending⟩
  | more (packet : Packet) (rest : List Packet) (ending : Ending) (src : List UInt8)
      (left : Arrivals) (hopen : packet.isLast = false) (hrest : Gives ⟨rest, ending⟩ src left) :
      Gives ⟨packet :: rest, ending⟩ (packet.payload ++ src) left
  | closed : Gives ⟨[], .closed⟩ [] ⟨[], .closed⟩

namespace Connection

/-- What arrives at a connection. -/
def arrivals (conn : Connection) : Arrivals where
  packets := conn.transport.inbound
  ending := conn.transport.ending

theorem collect_spec (fuel : ℕ) (buf : List UInt8) (conn : Connection) :
    conn.Reads (collect fuel buf conn).conn ∧ (collect fuel buf conn).conn.buf = conn.buf ∧
      ∀ src after, collect fuel buf conn = .returned (.ok src) after →
        ∃ front, src = buf ++ front ∧ conn.arrivals.Gives front after.arrivals := by
  induction fuel generalizing buf conn with
  | zero => exact ⟨Reads.refl conn, rfl, fun src after hcollect => by cases hcollect⟩
  | succ fuel ih =>
    unfold collect pollNext
    cases hinbound : conn.transport.inbound with
    | nil =>
      cases hending : conn.transport.ending with
      | silent => exact ⟨rfl, rfl, fun src after hcollect => by cases hcollect⟩
      | closed =>
        refine ⟨rfl, rfl, fun src after hcollect => ⟨[], ?_⟩⟩
        cases hcollect
        refine ⟨(List.append_nil buf).symm, ?_⟩
        have harrivals : conn.arrivals = ⟨[], .closed⟩ := by
          rw [arrivals, hinbound, hending]
        rw [harrivals, arrivals, polled, hending]
        exact .closed
      | failing error => exact ⟨rfl, rfl, fun src after hcollect => by cases hcollect⟩
    | cons packet rest =>
      have harrivals : conn.arrivals = ⟨packet :: rest, conn.transport.ending⟩ := by
        rw [arrivals, hinbound]
      have hpoll : conn.Reads { conn.polled rest with flushed := packet.isLast } := rfl
      simp only
      cases hlast : packet.isLast with
      | true =>
        simp only [if_true]
        rw [hlast] at hpoll
        refine ⟨hpoll, rfl, fun src after hcollect => ⟨packet.payload, ?_⟩⟩
        cases hcollect
        rw [harrivals]
        exact ⟨rfl, .last packet rest _ hlast⟩
      | false =>
        simp only [Bool.false_eq_true, if_false]
        rw [hlast] at hpoll
        obtain ⟨hreads, hbuf, hgives⟩ :=
          ih (buf ++ packet.payload) { conn.polled rest with flushed := false }
        refine ⟨hpoll.trans hreads, hbuf, fun src after hcollect => ?_⟩
        obtain ⟨front, rfl, hfront⟩ := hgives src after hcollect
        refine ⟨packet.payload ++ front, List.append_assoc _ _ _, ?_⟩
        rw [harrivals]
        exact .more packet rest _ front _ hlast hfront

theorem collect_returns {arrivals left : Arrivals} {src : List UInt8}
    (hgives : arrivals.Gives src left) (fuel : ℕ) (hfuel : arrivals.packets.length < fuel)
    (buf : List UInt8) (conn : Connection) (harrivals : conn.arrivals = arrivals) :
    ∃ after, collect fuel buf conn = .returned (.ok (buf ++ src)) after := by
  induction hgives generalizing fuel buf conn with
  | last packet rest ending hlast =>
    obtain ⟨hinbound, hending⟩ := Arrivals.mk.inj harrivals
    obtain ⟨fuel, rfl⟩ := Nat.exists_eq_add_of_lt hfuel
    simp only [collect, pollNext, hinbound, hlast, if_true]
    exact ⟨_, rfl⟩
  | more packet rest ending src left hopen hrest ih =>
    obtain ⟨hinbound, hending⟩ := Arrivals.mk.inj harrivals
    obtain ⟨fuel, rfl⟩ := Nat.exists_eq_add_of_lt hfuel
    simp only [collect, pollNext, hinbound, hopen, Bool.false_eq_true, if_false]
    rw [← List.append_assoc]
    refine ih _ ?_ _ _ ?_
    · simp only [List.length_cons]
      omega
    · simp only [Connection.arrivals, polled, hending]
  | closed =>
    obtain ⟨hinbound, hending⟩ := Arrivals.mk.inj harrivals
    obtain ⟨fuel, rfl⟩ := Nat.exists_eq_add_of_lt hfuel
    simp only [collect, pollNext, hinbound, hending, List.append_nil]
    exact ⟨_, rfl⟩

end Connection

/-- Where a link stands between two messages. -/
structure Standing where
  earlier : List (Channel × List UInt8)
  channel : Channel
  wire : List UInt8
  context : Context
  arrivals : Arrivals
  buf : List UInt8

/-- Where it stands behind bytes that have been written. -/
def Standing.sent (standing : Standing) (bytes : List UInt8) : Standing :=
  { standing with wire := standing.wire ++ bytes }

/-- Where it stands behind a packet id that has been taken. -/
def Standing.numbered (standing : Standing) : Standing :=
  { standing with context := standing.context.nextPacketId.2 }

namespace Link

def standing (link : Link) : Standing where
  earlier := link.earlier
  channel := link.channel
  wire := link.conn.transport.wire
  context := link.conn.context
  arrivals := link.conn.arrivals
  buf := link.conn.buf

/-- A link that can be written to. -/
structure Ready (standing : Standing) (link : Link) : Prop where
  stands : link.standing = standing
  clean : link.conn.transport.Clean
  usable : link.conn.ensureNotPoisoned = .ok ()

/-- A link that was left while bytes were being written. -/
def Cut (standing : Standing) (bytes : List UInt8) (link : Link) : Prop :=
  ∃ part, part <+: bytes ∧
    link.written = standing.earlier ++ [(standing.channel, standing.wire ++ part)]

variable {standing : Standing} {link : Link}

theorem Ready.written (hready : link.Ready standing) :
    link.written = standing.earlier ++ [(standing.channel, standing.wire)] := by
  rw [← hready.stands]
  rfl

theorem Ready.cut (hready : link.Ready standing) (bytes : List UInt8) : link.Cut standing bytes :=
  ⟨[], List.nil_prefix, by rw [hready.written, List.append_nil]⟩

/-- On another stream a link stands at its beginning. -/
theorem Ready.reframe (hready : link.Ready standing) (channel : Channel) (arrivals : Arrivals) :
    (link.reframe channel arrivals).Ready
      { standing with
        earlier := standing.earlier ++ [(standing.channel, standing.wire)]
        channel := channel
        wire := []
        arrivals := arrivals } := by
  obtain ⟨hstands, -, husable⟩ := hready
  subst hstands
  exact ⟨rfl, ⟨rfl, fun frame hframe => by cases hframe⟩, husable⟩

/-- A TLS stream is begun with nothing read. -/
theorem Ready.secured (hready : link.Ready standing) (arrivals : Arrivals) :
    (link.secured arrivals).Ready
      { standing with
        earlier := standing.earlier ++ [(standing.channel, standing.wire)]
        channel := .tls
        wire := []
        arrivals := arrivals
        buf := [] } := by
  obtain ⟨hstands, -, husable⟩ := hready
  have hclear := Connection.not_poisoned_of_guard husable
  subst hstands
  refine ⟨rfl, ⟨rfl, fun frame hframe => by cases hframe⟩, ?_⟩
  rw [← husable, Connection.ensureNotPoisoned, Connection.ensureNotPoisoned, hclear.1]
  rfl

theorem Ready.context (hready : link.Ready standing) : link.conn.context = standing.context := by
  rw [← hready.stands]
  rfl

end Link

/-- The bytes of an item that can be encoded, in the context it is sent in. -/
def itemBytes (context : Context) (header : UInt8 → PacketHeader) :
    Except Fault (List UInt8) → List UInt8
  | .ok payload => encoded (messagePackets (header context.packetId)
      (context.packetSize.toNat - headerBytes) payload)
  | .error _ => []

namespace Linked

open Stage Link

variable {standing : Standing} {bytes : List UInt8}

/-- A write of a message, on any connection that can be written to. -/
theorem triple_ofAttempt {write : Connection → Attempt}
    (hwrite : ∀ conn : Connection, conn.context = standing.context → conn.transport.Clean →
      conn.ensureNotPoisoned = .ok () → conn.Delivers bytes (write conn)) :
    Triple (Ready standing) (ofAttempt write)
      (fun _ link => link.conn.flushed = false ∧ link.Ready (standing.sent bytes))
      (Cut standing bytes) := by
  intro link hready
  obtain ⟨⟨⟨part, hpart, hbegun⟩, hwhole⟩, hwrote⟩ :=
    hwrite link.conn hready.context hready.clean hready.usable
  have hstands := hready.stands
  have hcut : Link.Cut standing bytes { link with conn := (write link.conn).conn } := by
    refine ⟨part, hpart, ?_⟩
    rw [Link.written, hbegun, ← hstands]
    rfl
  unfold ofAttempt
  simp only
  cases hattempt : write link.conn with
  | returned result after =>
    rw [hattempt] at hcut
    cases result with
    | error error => exact hcut
    | ok value =>
      obtain ⟨hkept, hclean⟩ := hwrote after hattempt
      refine ⟨hkept.flushed, ?_, hclean, ?_⟩
      · rw [← hstands]
        simp only [Link.standing, Standing.sent, Connection.arrivals, hwhole after hattempt,
          hkept.context, hkept.inbound, hkept.ending, hkept.buf]
      · simp only [Connection.ensureNotPoisoned, hkept.poisoned, hkept.desync]
        exact hready.usable
  | dropped after =>
    rw [hattempt] at hcut
    exact hcut
  | panicked after =>
    rw [hattempt] at hcut
    exact hcut
  | running after =>
    rw [hattempt] at hcut
    exact hcut

theorem triple_nextPacketId (bytes : List UInt8) :
    Triple (Ready standing) nextPacketId
      (fun id link => id = standing.context.packetId ∧ link.Ready standing.numbered)
      (Cut standing bytes) := by
  intro link hready
  have hstands := hready.stands
  refine ⟨by rw [hready.context]; rfl, ?_, hready.clean, hready.usable⟩
  rw [← hstands]
  rfl

/-- `send` of an item with the next packet id. -/
theorem triple_sendItem (hrange : standing.context.SizeInRange) (header : UInt8 → PacketHeader)
    (item : Except Fault (List UInt8)) (fates : List Fate) :
    Triple (Ready standing) (sendItem header item fates)
      (fun _ link => (∃ payload, item = .ok payload) ∧ link.conn.flushed = false ∧
        link.Ready (standing.numbered.sent (itemBytes standing.context header item)))
      (Cut standing (itemBytes standing.context header item)) := by
  refine triple_bind (triple_nextPacketId _) fun id => ?_
  intro link hready
  obtain ⟨rfl, hready⟩ := hready
  cases item with
  | ok payload =>
    have hdelivers : ∀ conn : Connection, conn.context = standing.context.nextPacketId.2 →
        conn.transport.Clean → conn.ensureNotPoisoned = .ok () →
        conn.Delivers (itemBytes standing.context header (.ok payload))
          (conn.send (header standing.context.packetId) (.ok payload) fates) := by
      intro conn hcontext hclean husable
      have hdelivers := Connection.send_delivers (by rw [hcontext]; exact hrange) hclean husable
        (header standing.context.packetId) payload fates
      rw [Connection.messageBytes, hcontext] at hdelivers
      exact hdelivers
    exact (triple_ofAttempt hdelivers link hready).weaken
      (fun _ _ hafter => ⟨⟨payload, rfl⟩, hafter⟩) fun _ hcut => hcut
  | error fault =>
    cases fault with
    | error error =>
      have hsend := @Connection.send_unencoded _ (header standing.context.packetId) error fates
        hready.usable (by rw [hready.context]; exact hrange)
      simp only [ofAttempt, hsend]
      exact hready.cut []
    | panic =>
      change Exit.Meets _ _
        (((Stage.ofExcept link.conn.ensureNotPoisoned : Linked Unit) >>= fun _ => panic).run link)
      rw [hready.usable]
      exact hready.cut []

/-- `send_sensitive_login` of a payload, behind its packet id. -/
theorem triple_sendSensitiveLogin (hrange : standing.context.SizeInRange) (payload : List UInt8)
    (fates : List Fate) :
    Triple (Ready standing.numbered)
      (ofAttempt fun conn =>
        conn.sendSensitiveLogin (.login standing.context.packetId) payload fates)
      (fun _ link => link.conn.flushed = false ∧
        link.Ready (standing.numbered.sent (itemBytes standing.context .login (.ok payload))))
      (Cut standing (itemBytes standing.context .login (.ok payload))) := by
  refine triple_ofAttempt fun conn hcontext hclean husable => ?_
  have hdelivers := Connection.sendSensitiveLogin_delivers (by rw [hcontext]; exact hrange) hclean
    husable (.login standing.context.packetId) payload fates
  rw [Connection.messageBytes, hcontext] at hdelivers
  exact hdelivers

/-- Collecting a message leaves what comes behind it. -/
theorem triple_collectMessage (bytes : List UInt8) :
    Triple (Ready standing) (ofFinished Connection.collectMessage)
      (fun src link => ∃ left, standing.arrivals.Gives src left ∧
        link.Ready { standing with arrivals := left })
      (Cut standing bytes) := by
  intro link hready
  obtain ⟨hreads, hbuf, hgives⟩ :=
    Connection.collect_spec (link.conn.transport.inbound.length + 1) [] link.conn
  have hlistened := hreads.listened
  have hcontext := hreads.context_eq
  have hstands := hready.stands
  unfold ofFinished
  simp only [Connection.collectMessage]
  generalize Connection.collect (link.conn.transport.inbound.length + 1) [] link.conn = finished at *
  have hafter : Link.Ready { standing with arrivals := finished.conn.arrivals }
      { link with conn := finished.conn } := by
    refine ⟨?_, hlistened.clean hready.clean, hlistened.usable hready.usable⟩
    rw [← hstands]
    simp only [Link.standing, hlistened.wire, hcontext, hbuf]
  cases finished with
  | returned result after =>
    cases result with
    | error error => exact hafter.cut bytes
    | ok src =>
      obtain ⟨front, hsrc, hfront⟩ := hgives src after rfl
      rw [List.nil_append] at hsrc
      subst hsrc
      refine ⟨after.arrivals, ?_, hafter⟩
      rw [← hstands]
      exact hfront
  | panicked after => exact hafter.cut bytes
  | waiting after => exact hafter.cut bytes

theorem triple_ofStop {α : Type} {Before Cut : Link → Prop} (result : Except (Stop Error) α)
    (hcut : ∀ link, Before link → Cut link) :
    Triple Before (ofStop result) (fun value link => result = .ok value ∧ Before link) Cut := by
  intro link hbefore
  cases result with
  | ok value => exact ⟨rfl, hbefore⟩
  | error stop => cases stop <;> exact hcut link hbefore

theorem triple_ofFault {α : Type} {Before Cut : Link → Prop} (result : Except Fault α)
    (hcut : ∀ link, Before link → Cut link) :
    Triple Before (ofFault result) (fun value link => result = .ok value ∧ Before link) Cut := by
  intro link hbefore
  cases result with
  | ok value => exact ⟨rfl, hbefore⟩
  | error fault => cases fault <;> exact hcut link hbefore

variable [EncodingRs]

/-- Listening to tokens, for a link that is written to again. -/
theorem triple_listen {σ α : Type} (bytes : List UInt8) (consumer : Consumer σ α) (state : σ)
    (hrange : standing.context.SizeInRange) :
    Triple (Ready standing) (ofFinished (consumer.run state))
      (fun _ link => ∃ context arrivals buf, context.SizeInRange ∧
        link.Ready { standing with context := context, arrivals := arrivals, buf := buf })
      (Cut standing bytes) := by
  intro link hready
  have hlistened : link.conn.Listened (consumer.run state link.conn).conn :=
    consumer.onStream_listened _ state (.new link.conn)
  have hafter : ∃ context arrivals buf, context.SizeInRange ∧
      Link.Ready { standing with context := context, arrivals := arrivals, buf := buf }
        { link with conn := (consumer.run state link.conn).conn } := by
    have hcontext := hlistened.range (by rw [hready.context]; exact hrange)
    refine ⟨_, (consumer.run state link.conn).conn.arrivals, (consumer.run state link.conn).conn.buf,
      hcontext, ?_, hlistened.clean hready.clean, hlistened.usable hready.usable⟩
    rw [← hready.stands]
    simp only [Link.standing, hlistened.wire]
  unfold ofFinished
  simp only
  generalize consumer.run state link.conn = finished at hafter
  obtain ⟨context, arrivals, buf, hcontext, hafter⟩ := hafter
  cases finished with
  | returned result after =>
    cases result with
    | error error => exact hafter.cut bytes
    | ok value => exact ⟨context, arrivals, buf, hcontext, hafter⟩
  | panicked after => exact hafter.cut bytes
  | waiting after => exact hafter.cut bytes

/-- Listening writes nothing. -/
theorem triple_unwritten {σ α : Type} (consumer : Consumer σ α) (state : σ)
    {Allowed : List (Channel × List UInt8) → Prop} :
    Triple (fun link => Allowed link.written) (ofFinished (consumer.run state))
      (fun _ link => Allowed link.written) (fun link => Allowed link.written) := by
  intro link hallowed
  have hlistened : link.conn.Listened (consumer.run state link.conn).conn :=
    consumer.onStream_listened _ state (.new link.conn)
  have hafter : Allowed (Link.written { link with conn := (consumer.run state link.conn).conn }) := by
    rw [Link.written, hlistened.wire]
    exact hallowed
  unfold ofFinished
  simp only
  generalize consumer.run state link.conn = finished at hafter
  cases finished with
  | returned result after => cases result <;> exact hafter
  | panicked after => exact hafter
  | waiting after => exact hafter

end Linked

end Tiberius
