import Tiberius.Conversation
import Tiberius.ReceivedCalls
import Tiberius.Staging.Posting

/-!
A client at work on a connection. It makes calls and cancels them, each of which may fail
or be dropped while it writes, reads what comes and drops what it reads, and what it has
sent is taken from the wire on the other side. The run records every call that was made
and whether it came back.
-/

namespace Tiberius

open PacketCodec Reading Staging

/-- A write that has come back without an error. -/
def Attempt.succeeded : Attempt → Bool
  | returned (.ok ()) _ => true
  | _ => false

theorem Attempt.succeeded_iff {attempt : Attempt} :
    attempt.succeeded = true ↔ ∃ after, attempt = .returned (.ok ()) after := by
  constructor
  · intro hsucceeded
    cases attempt with
    | returned result after =>
      cases result with
      | ok value => exact ⟨after, rfl⟩
      | error error => cases hsucceeded
    | dropped after => cases hsucceeded
    | panicked after => cases hsucceeded
    | running after => cases hsucceeded
  · rintro ⟨after, rfl⟩
    rfl

/-- The one packet of an attention, which has no payload. -/
def Letter.attention (id : UInt8) : Letter where
  message := { ty := .attentionSignal, payload := [] }
  packets := [{ header := .attention id, payload := [] }]
  payload_length_le := by
    intro packet hpacket
    rw [List.mem_singleton.mp hpacket]
    exact Nat.zero_le _
  assemble_packets := fun rest => rfl
  assemble_part := by
    intro whole left hsplit hleft
    cases whole with
    | nil => rfl
    | cons packet whole =>
      rw [List.cons_append, List.cons.injEq] at hsplit
      exact absurd (List.append_eq_nil_iff.mp hsplit.2.symm).2 hleft

/-- A client on its connection, and what it has made of it: the requests and the
attentions, and whether sending each of them has come back. -/
structure Dialogue where
  conn : Connection
  posts : List (Received × Bool)

inductive Deed where
  | call (call : Call) (fates : List Fate)
  | attention (fates : List Fate)
  | flushStream
  | read (reader : Reader ReceivedToken)
  | elapse (timeout : Duration)
  | arrive (packets : List Packet) (ending : Ending)

namespace Dialogue

def start (conn : Connection) : Dialogue where
  conn := conn
  posts := []

def post (dialogue : Dialogue) (received : Received) (conn : Connection) (returned : Bool) :
    Dialogue where
  conn := conn
  posts := dialogue.posts ++ [(received, returned)]

variable [StdLib] [EncodingRs]

/-- A call flushes the stream, and sends its request. -/
def call (dialogue : Dialogue) (call : Call) (request : ClientRequest) (fates : List Fate) :
    Dialogue :=
  let received := Received.request dialogue.conn.context.transactionDesc.toList call.asked
  match dialogue.conn.prepare request with
  | .returned (.ok (header, item)) conn =>
    let attempt := conn.send header item fates
    dialogue.post received attempt.conn attempt.succeeded
  | other => dialogue.post received other.conn false

def step (dialogue : Dialogue) : Deed → Option Dialogue
  | .call call fates => call.request.map fun request => dialogue.call call request fates
  | .attention fates =>
    let attempt := dialogue.conn.sendAttention fates
    some (dialogue.post .attention attempt.conn attempt.succeeded)
  | .flushStream => some { dialogue with conn := dialogue.conn.flushStream.conn }
  | .read reader =>
    some { dialogue with conn := ((TokenStream.new dialogue.conn).resume reader).conn }
  | .elapse timeout =>
    some { dialogue with conn := ((TokenStream.new dialogue.conn).elapse timeout).conn }
  | .arrive packets ending =>
    some { dialogue with conn := dialogue.conn.arrive packets ending }

end Dialogue

/-- Nothing has been written, and a connection that was poisoned is so still. -/
structure Connection.Quiet (conn after : Connection) : Prop where
  wire : after.transport.wire = conn.transport.wire
  sink : after.transport.sink = conn.transport.sink
  frames : after.transport.frames = conn.transport.frames
  poisoned : after.poisoned = false → conn.poisoned = false
  range : conn.context.SizeInRange → after.context.SizeInRange

namespace Connection

variable {conn middle after : Connection}

theorem Quiet.trans (hfirst : conn.Quiet middle) (hsecond : middle.Quiet after) :
    conn.Quiet after where
  wire := hsecond.wire.trans hfirst.wire
  sink := hsecond.sink.trans hfirst.sink
  frames := hsecond.frames.trans hfirst.frames
  poisoned := hfirst.poisoned ∘ hsecond.poisoned
  range := hsecond.range ∘ hfirst.range

theorem Quiet.clean (hquiet : conn.Quiet after)
    (hclean : conn.poisoned = false → conn.transport.Clean) (hclear : after.poisoned = false) :
    after.transport.Clean where
  sink := by rw [hquiet.sink, (hclean (hquiet.poisoned hclear)).sink]
  frames := by
    rw [hquiet.frames]
    exact (hclean (hquiet.poisoned hclear)).frames

theorem Listened.quiet (hlistened : conn.Listened after) : conn.Quiet after where
  wire := hlistened.wire
  sink := hlistened.sink
  frames := hlistened.frames
  poisoned := fun hclear => hlistened.poisoned.symm.trans hclear
  range := hlistened.range

theorem Quiet.poison (hquiet : conn.Quiet after) : conn.Quiet after.poison where
  wire := hquiet.wire
  sink := hquiet.sink
  frames := hquiet.frames
  poisoned := fun hclear => by cases hclear
  range := hquiet.range

theorem flushStream_quiet (conn : Connection) : conn.Quiet conn.flushStream.conn := by
  obtain ⟨after, hreads, hconn | hconn⟩ := conn.flushStream_reads
  · rw [hconn]
    exact hreads.listened.quiet
  · rw [hconn]
    exact hreads.listened.quiet.poison

/-- Writing a letter: its bytes are put on the wire, and unless the write comes back the
connection is left poisoned. -/
structure Sends (conn : Connection) (letter : Letter) (attempt : Attempt) : Prop where
  puts : Puts conn (encoded letter.packets) attempt
  clean : attempt.succeeded = true → attempt.conn.transport.Clean
  poisoned : attempt.succeeded = false → attempt.conn.poisoned = true
  range : attempt.conn.context.SizeInRange

theorem send_sends {header : PacketHeader} {payload : List UInt8} {fates : List Fate}
    (hrange : conn.context.SizeInRange) (hclean : conn.transport.Clean)
    (husable : conn.ensureNotPoisoned = .ok ()) (hne : payload ≠ []) :
    ∃ letter : Letter, letter.message = { ty := header.ty, payload := payload } ∧
      conn.Sends letter (conn.send header (.ok payload) fates) := by
  have hle : conn.context.packetSize.toNat - headerBytes ≤ 65527 := by
    have hsize := hrange.2
    omega
  have hdelivers := send_delivers hrange hclean husable header payload fates
  refine ⟨Framing.letter ⟨header, _, payload, payload_pos hrange, hle, hne⟩, rfl,
    hdelivers.puts, ?_, ?_, ?_⟩
  · intro hsucceeded
    obtain ⟨after, hafter⟩ := Attempt.succeeded_iff.mp hsucceeded
    rw [hafter]
    exact (hdelivers.wrote after hafter).2
  · intro hfailed
    rcases send_encoded header payload fates husable hrange with ⟨after, hafter, -⟩ | hfail
    · rw [hafter] at hfailed
      cases hfailed
    · exact hfail.2.1
  · rcases send_encoded header payload fates husable hrange with ⟨after, hafter, hwrote⟩ | hfail
    · rw [hafter]
      change after.context.SizeInRange
      rw [hwrote.context]
      exact hrange
    · rw [hfail.2.2]
      exact hrange

/-- The writes of an attention before the connection is usable again. -/
theorem attention_wrote (message : ℕ) (header : PacketHeader) (first second : Fate)
    (conn : Connection) : conn.Wrote
      ((conn.writeToWire message header [] first).andThen (flushSink second)).conn := by
  have hwrote := writeToWire_wrote message header [] first conn
  generalize conn.writeToWire message header [] first = attempt at hwrote
  by_cases hdone : ∃ after, attempt = .returned (.ok ()) after
  · obtain ⟨after, rfl⟩ := hdone
    exact hwrote.trans (flushSink_wrote second hwrote.flushed)
  · rw [Attempt.andThen_of_not_ok _ fun after hafter => hdone ⟨after, hafter⟩]
    exact hwrote

theorem sendAttention_sends {fates : List Fate} (hrange : conn.context.SizeInRange)
    (hclean : conn.transport.Clean) (husable : conn.ensureNotPoisoned = .ok ()) :
    ∃ id, conn.Sends (.attention id) (conn.sendAttention fates) := by
  obtain ⟨frames, hwrites, -⟩ := sendAttention_writes (fun _ => hclean) fates
  generalize hopened : (openMessage { conn with context := conn.context.nextPacketId.2 }).2.poison =
    opened
  have hopen : opened.transport.Clean := by
    rw [← hopened]
    exact ⟨hclean.sink, hclean.frames⟩
  have hsend : conn.sendAttention fates =
      ((opened.writeToWire conn.transport.messages (.attention conn.context.nextPacketId.1) []
        (fates.headD .completes)).andThen (flushSink (fates.tail.headD .completes))).andThen
          fun conn => .returned (.ok ()) conn.unpoison := by
    rw [Attempt.andThen_assoc, ← hopened]
    simp only [sendAttention, husable]
    rfl
  have hwrote := attention_wrote conn.transport.messages
    (.attention conn.context.nextPacketId.1) (fates.headD .completes)
    (fates.tail.headD .completes) opened
  have hputs := (writeToWire_puts conn.transport.messages
    (.attention conn.context.nextPacketId.1) [] (fates.headD .completes) hopen).andThen
      fun after hafter => flushSink_puts (fates.tail.headD .completes)
        ((writeToWire_sends _ _ _ _ hopen).clean hopen hafter)
  refine ⟨conn.context.nextPacketId.1, ?_, ?_, ?_, hwrites.range hrange⟩
  · rw [hsend]
    exact (Puts.of_wire opened hputs (by rw [← hopened]; rfl)).bracket
  · intro hsucceeded
    obtain ⟨after, hafter⟩ := Attempt.succeeded_iff.mp hsucceeded
    refine hwrites.clean (fun _ => hclean) ?_
    rw [hsend] at hafter ⊢
    obtain ⟨middle, hmiddle, hback⟩ := Attempt.andThen_ok hafter
    rw [hmiddle]
    rfl
  · intro hfailed
    rw [hsend] at hfailed ⊢
    generalize Attempt.andThen _ (flushSink _) = attempt at hwrote hfailed ⊢
    by_cases hdone : ∃ after, attempt = .returned (.ok ()) after
    · obtain ⟨after, rfl⟩ := hdone
      cases hfailed
    · rw [Attempt.andThen_of_not_ok _ fun after hafter => hdone ⟨after, hafter⟩, hwrote.poisoned,
        ← hopened]
      rfl

/-- The messages on the wire of a connection: whole letters, and behind them a part of one
more only where the connection is poisoned. -/
def Holds (conn : Connection) (messages : List Message) : Prop :=
  ∃ (letters : List Letter) (part : List UInt8),
    conn.transport.wire = encoded (letters.flatMap Letter.packets) ++ part ∧
      Letter.Unfinished part ∧ (conn.poisoned = false → part = []) ∧
        messages = letters.map Letter.message

variable {messages : List Message} {letter : Letter} {attempt : Attempt}

theorem Holds.heard (hholds : conn.Holds messages) :
    Message.onWire conn.transport.wire = messages := by
  obtain ⟨letters, part, hwire, hpart, -, rfl⟩ := hholds
  rw [hwire]
  exact Letter.onWire_eq letters hpart

theorem Holds.quiet (hholds : conn.Holds messages) (hquiet : conn.Quiet after) :
    after.Holds messages := by
  obtain ⟨letters, part, hwire, hpart, hnil, hmessages⟩ := hholds
  exact ⟨letters, part, hquiet.wire.trans hwire, hpart, hnil ∘ hquiet.poisoned, hmessages⟩

/-- A letter that is written to a usable connection arrives, or has failed to. -/
theorem Holds.sends (hholds : conn.Holds messages) (hclear : conn.poisoned = false)
    (hsends : conn.Sends letter attempt) :
    attempt.conn.Holds (messages ++ [letter.message]) ∨
      attempt.succeeded = false ∧ attempt.conn.Holds messages := by
  obtain ⟨letters, part, hwire, -, hnil, rfl⟩ := hholds
  obtain rfl := hnil hclear
  rw [List.append_nil] at hwire
  obtain ⟨part, ⟨back, hback⟩, hbegun⟩ := hsends.puts.begun
  have hpacked : encoded ((letters ++ [letter]).flatMap Letter.packets) =
      encoded (letters.flatMap Letter.packets) ++ encoded letter.packets := by
    rw [encoded, List.flatMap_append, List.flatMap_append, List.flatMap_singleton]
    rfl
  by_cases hwhole : back = []
  · left
    subst hwhole
    rw [List.append_nil] at hback
    refine ⟨letters ++ [letter], [], ?_, .inl rfl, fun _ => rfl, ?_⟩
    · rw [hbegun, hwire, hback, hpacked, List.append_nil]
    · rw [List.map_append, List.map_singleton]
  · right
    have hfailed : attempt.succeeded = false := by
      by_contra hsucceeded
      obtain ⟨after, rfl⟩ := Attempt.succeeded_iff.mp (Bool.eq_true_of_not_eq_false hsucceeded)
      have hall := hsends.puts.whole after rfl
      rw [show after.transport.wire = _ from hbegun, List.append_cancel_left_eq] at hall
      rw [hall] at hback
      exact hwhole (List.append_right_eq_self.mp hback)
    refine ⟨hfailed, letters, part, ?_, .inr ⟨letter, back, hback, hwhole⟩, ?_, rfl⟩
    · rw [hbegun, hwire]
    · intro hclear
      rw [hsends.poisoned hfailed] at hclear
      cases hclear

end Connection

namespace Dialogue

/-- What holds in every dialogue, whatever fails or is dropped: the messages on the wire
are those in front of it and what its posts have brought to the other side. -/
structure Kept [EncodingRs] (env : Context) (before : List Message) (dialogue : Dialogue)
    (line : Line Received) : Prop where
  range : dialogue.conn.context.SizeInRange
  clean : dialogue.conn.poisoned = false → dialogue.conn.transport.Clean
  records : Line.Records dialogue.posts line
  uncut : dialogue.conn.poisoned = false → line.cut = false
  holds : ∃ arrived, dialogue.conn.Holds (before ++ arrived) ∧
    arrived.map (Received.read env) = line.arrived.map some

section Steps

variable [EncodingRs] {env : Context} {before : List Message} {dialogue : Dialogue}
  {line : Line Received} {conn : Connection}

theorem Kept.quiet (hkept : dialogue.Kept env before line) (hquiet : dialogue.conn.Quiet conn) :
    Kept env before { dialogue with conn := conn } line where
  range := hquiet.range hkept.range
  clean := hquiet.clean hkept.clean
  records := hkept.records
  uncut := hkept.uncut ∘ hquiet.poisoned
  holds :=
    have ⟨arrived, hholds, hread⟩ := hkept.holds
    ⟨arrived, hholds.quiet hquiet, hread⟩

/-- A post that has written nothing. -/
theorem Kept.refused (hkept : dialogue.Kept env before line) (hquiet : dialogue.conn.Quiet conn)
    (received : Received) : Kept env before (dialogue.post received conn false) line :=
  { hkept.quiet hquiet with records := .post received false hkept.records (.refused line) }

/-- A post whose letter is written to a usable connection. -/
theorem Kept.sends (hkept : dialogue.Kept env before line)
    (husable : dialogue.conn.ensureNotPoisoned = .ok ()) {received : Received} {letter : Letter}
    {attempt : Attempt} (hread : Received.read env letter.message = some received)
    (hsends : dialogue.conn.Sends letter attempt) :
    ∃ line, Kept env before (dialogue.post received attempt.conn attempt.succeeded) line := by
  have hclear := (Connection.not_poisoned_of_guard husable).1
  obtain ⟨sofar, cut⟩ := line
  obtain rfl : cut = false := hkept.uncut hclear
  obtain ⟨arrived, hholds, hsofar⟩ := hkept.holds
  have harrived : (arrived ++ [letter.message]).map (Received.read env) =
      (sofar ++ [received]).map some := by
    rw [List.map_append, List.map_append, hsofar, List.map_singleton, List.map_singleton, hread]
  have hmore := hholds.sends hclear hsends
  rw [List.append_assoc] at hmore
  cases hsucceeded : attempt.succeeded with
  | true =>
    rw [hsucceeded] at hmore
    refine ⟨⟨sofar ++ [received], false⟩, hsends.range, fun _ => hsends.clean hsucceeded,
      .post received true hkept.records (.taken sofar), fun _ => rfl, _, ?_, harrived⟩
    exact hmore.resolve_right fun hfailed => Bool.false_ne_true hfailed.1.symm
  | false =>
    have hpoisoned := hsends.poisoned hsucceeded
    have hnever : ∀ {p : Prop}, attempt.conn.poisoned = false → p := by
      intro p hopen
      rw [hpoisoned] at hopen
      cases hopen
    rcases hmore with hmore | ⟨-, hmore⟩
    · exact ⟨⟨sofar ++ [received], true⟩, hsends.range, hnever,
        .post received false hkept.records (.torn sofar), hnever, _, hmore, harrived⟩
    · exact ⟨⟨sofar, true⟩, hsends.range, hnever,
        .post received false hkept.records (.lost sofar), hnever, _, hmore, hsofar⟩

theorem attention_kept (hkept : dialogue.Kept env before line) (fates : List Fate) :
    ∃ line, Kept env before (dialogue.post .attention (dialogue.conn.sendAttention fates).conn
      (dialogue.conn.sendAttention fates).succeeded) line := by
  cases hguard : dialogue.conn.ensureNotPoisoned with
  | error error =>
    simp only [Connection.sendAttention, hguard]
    exact ⟨line, hkept.refused ⟨rfl, rfl, rfl, id, id⟩ _⟩
  | ok value =>
    have hclean := hkept.clean (Connection.not_poisoned_of_guard hguard).1
    obtain ⟨id, hsends⟩ := Connection.sendAttention_sends hkept.range hclean hguard
    exact hkept.sends hguard rfl hsends

theorem start_kept {conn : Connection} (hrange : conn.context.SizeInRange)
    (hclean : conn.poisoned = false → conn.transport.Clean) (hholds : conn.Holds before) :
    (start conn).Kept env before .new where
  range := hrange
  clean := hclean
  records := .nil
  uncut := fun _ => rfl
  holds := ⟨[], by rw [List.append_nil]; exact hholds, rfl⟩

end Steps

end Dialogue

/-- What a call does before its request is sent: nothing is written, and the request is
encoded under the descriptor that the connection had. -/
theorem Connection.prepare_quiet (conn : Connection) (request : ClientRequest) :
    conn.Quiet (conn.prepare request).conn ∧ ∀ header item prepared,
      conn.prepare request = .returned (.ok (header, item)) prepared →
        (∃ id, header = request.header id) ∧
          item = request.encode conn.context.transactionDesc := by
  obtain ⟨after, hreads, hconn⟩ := conn.flushStream_reads
  have hcontext : conn.flushStream.conn.context = conn.context := by
    rcases hconn with hconn | hconn <;> rw [hconn, show after = _ from hreads] <;> rfl
  have hquiet := conn.flushStream_quiet
  unfold prepare
  cases hflush : conn.flushStream with
  | returned result flushed =>
    rw [hflush] at hquiet hcontext
    cases result with
    | ok value =>
      refine ⟨⟨hquiet.wire, hquiet.sink, hquiet.frames, hquiet.poisoned, hquiet.range⟩, ?_⟩
      intro header item prepared hprepare
      cases hprepare
      rw [show flushed.context = _ from hcontext, ite_self]
      exact ⟨⟨_, rfl⟩, rfl⟩
    | error error => exact ⟨hquiet, fun _ _ _ hprepare => by cases hprepare⟩
  | panicked flushed =>
    rw [hflush] at hquiet
    exact ⟨hquiet, fun _ _ _ hprepare => by cases hprepare⟩
  | waiting flushed =>
    rw [hflush] at hquiet
    exact ⟨hquiet, fun _ _ _ hprepare => by cases hprepare⟩

namespace Dialogue

section Runs

variable [StdLib] [EncodingRs] {env : Context} {before : List Message} {dialogue : Dialogue}
  {line : Line Received}

theorem call_kept (hkept : dialogue.Kept env before line) {call : Call}
    (hcall : call.Deliverable) {request : ClientRequest} (hrequest : call.request = some request)
    (fates : List Fate) : ∃ line, Kept env before (dialogue.call call request fates) line := by
  obtain ⟨hquiet, hitem⟩ := dialogue.conn.prepare_quiet request
  unfold Dialogue.call
  cases hprepare : dialogue.conn.prepare request with
  | returned result prepared =>
    rw [hprepare] at hquiet
    cases result with
    | error error => exact ⟨line, hkept.refused hquiet _⟩
    | ok sent =>
      obtain ⟨header, item⟩ := sent
      obtain ⟨⟨number, rfl⟩, rfl⟩ := hitem header item prepared hprepare
      dsimp only
      cases hguard : prepared.ensureNotPoisoned with
      | error error =>
        simp only [Connection.send, hguard]
        exact ⟨line, hkept.refused hquiet _⟩
      | ok value =>
        have hprepared := hkept.quiet hquiet
        cases hencode : request.encode dialogue.conn.context.transactionDesc with
        | error error =>
          rw [Connection.send_unencoded hguard hprepared.range]
          have hunsent : dialogue.conn.Quiet { prepared with flushed := false } :=
            hquiet.trans ⟨rfl, rfl, rfl, id, id⟩
          exact ⟨line, hkept.refused hunsent _⟩
        | ok payload =>
          have hclean := hprepared.clean (Connection.not_poisoned_of_guard hguard).1
          obtain ⟨letter, hletter, hsends⟩ := Connection.send_sends hprepared.range hclean hguard
            (ClientRequest.payload_ne_nil hencode)
          have hread := @Call.read_back env _ _ _ _ hcall hrequest _ _ hencode number
          rw [← hletter] at hread
          exact hprepared.sends hguard hread hsends
  | panicked prepared =>
    rw [hprepare] at hquiet
    exact ⟨line, hkept.refused hquiet _⟩
  | waiting prepared =>
    rw [hprepare] at hquiet
    exact ⟨line, hkept.refused hquiet _⟩

/-- The calls of a deed are read back on the other side. -/
def Sendable (_ : Dialogue) (deed : Deed) : Prop :=
  ∀ call fates, deed = .call call fates → call.Deliverable

theorem step_kept (hkept : dialogue.Kept env before line) {deed : Deed} {next : Dialogue}
    (hsendable : dialogue.Sendable deed) (hstep : dialogue.step deed = some next) :
    ∃ line, next.Kept env before line := by
  cases deed with
  | call call fates =>
    obtain ⟨request, hrequest, rfl⟩ := Option.map_eq_some_iff.mp hstep
    exact call_kept hkept (hsendable call fates rfl) hrequest fates
  | attention fates =>
    obtain rfl := Option.some.inj hstep
    exact attention_kept hkept fates
  | flushStream =>
    obtain rfl := Option.some.inj hstep
    exact ⟨line, hkept.quiet dialogue.conn.flushStream_quiet⟩
  | read reader =>
    obtain rfl := Option.some.inj hstep
    exact ⟨line, hkept.quiet ((TokenStream.new dialogue.conn).resume_listened reader).quiet⟩
  | elapse timeout =>
    obtain rfl := Option.some.inj hstep
    exact ⟨line, hkept.quiet ⟨rfl, rfl, rfl, id, id⟩⟩
  | arrive packets ending =>
    obtain rfl := Option.some.inj hstep
    exact ⟨line, hkept.quiet ⟨rfl, rfl, rfl, id, id⟩⟩

end Runs

end Dialogue

namespace Dialogue

/-- Behind the messages that were on a connection stand the posts that have come back, and
at most one that broke off, after which nothing is written. -/
def Delivered [EncodingRs] (env : Context) (dialogue : Dialogue) (arrived : List Message)
    (torn : List Received) : Prop :=
  arrived.map (Received.read env) = (Line.returned dialogue.posts ++ torn).map some ∧
    torn.length ≤ 1 ∧ (torn ≠ [] → dialogue.conn.poisoned = true) ∧
      (Line.returned dialogue.posts ++ torn).Sublist (dialogue.posts.map Prod.fst)

theorem Kept.delivered [EncodingRs] {env : Context} {before : List Message}
    {dialogue : Dialogue} {line : Line Received} (hkept : dialogue.Kept env before line) :
    ∃ arrived torn, Message.onWire dialogue.conn.transport.wire = before ++ arrived ∧
      dialogue.Delivered env arrived torn := by
  obtain ⟨arrived, hwire, hread⟩ := hkept.holds
  obtain ⟨torn, hline, hlength, hcut, hsublist⟩ := hkept.records.arrived
  refine ⟨arrived, torn, hwire.heard, by rw [hread, hline], hlength, fun hne => ?_, hsublist⟩
  by_contra hopen
  have hclear := hkept.uncut (Bool.eq_false_of_not_eq_true hopen)
  rw [hcut hne] at hclear
  cases hclear

end Dialogue

/-- What stands on the wire of a link on which messages have been said. -/
theorem Link.Said.holds {messages : List Message} {link : Link} (hsaid : link.Said messages) :
    ∃ earlier now, messages = earlier ++ now ∧ link.conn.Holds now ∧
      ∀ conn : Connection, { link with conn := conn }.heardMessages =
        earlier ++ Message.onWire conn.transport.wire := by
  obtain ⟨standing, -, ⟨before, now, hearlier, hwire, rfl⟩, hready⟩ := hsaid
  rw [← hready.stands] at hearlier hwire
  refine ⟨(before.flatMap Prod.snd).map Framing.message, now.map Framing.message,
    List.map_append, ⟨now.map Framing.letter, [], ?_, .inl rfl, fun _ => rfl, ?_⟩, fun conn => ?_⟩
  · rw [List.append_nil, List.flatMap_map]
    exact hwire
  · rw [List.map_map]
    rfl
  · rw [heardMessages, written, List.flatMap_append, List.flatMap_singleton,
      show link.earlier = _ from hearlier, List.flatMap_map, List.map_flatMap]
    simp only [Framing.onWire_whole]

namespace Establish

/-- From the first byte of a connection on, whatever fails, is dropped or is read in
between, the other side has been told the handshake, and behind it the calls that have
come back as they were made, each once and in order, and at most one that broke off. -/
theorem connect_calls [StdLib] [EncodingRs] (platform : Platform) (config : Config) (peer : Peer)
    (env : Context) (link : Link) (hreturned : connect platform config peer = .returned () link)
    (dialogue : Dialogue)
    (hreach : Reached Dialogue.step Dialogue.Sendable (.start link.conn) dialogue) :
    ∃ response token prelogin login reply arrived torn,
      Conversation platform config peer link response token prelogin login reply ∧
      { link with conn := dialogue.conn }.heardMessages =
        { ty := .preLogin, payload := prelogin } :: { ty := .tdsv7Login, payload := login } ::
          (reply ++ arrived) ∧
      dialogue.Delivered env arrived torn := by
  obtain ⟨response, token, prelogin, login, reply, hconversation, hsaid⟩ := connect_said hreturned
  obtain ⟨earlier, now, hmessages, hholds, hheard⟩ := hsaid.holds
  obtain ⟨line, hkept⟩ := hreach.keeps (fun dialogue => ∃ line, dialogue.Kept env now line)
    ⟨.new, Dialogue.start_kept hconversation.range (fun _ => hconversation.clean) hholds⟩
    fun _ _ _ ⟨_, hkept⟩ hsendable hstep => Dialogue.step_kept hkept hsendable hstep
  obtain ⟨arrived, torn, hwire, hdelivered⟩ := hkept.delivered
  refine ⟨response, token, prelogin, login, reply, arrived, torn, hconversation, ?_, hdelivered⟩
  rw [hheard, hwire, ← List.append_assoc, ← hmessages]
  rfl

/-- A query with a parameter. -/
def sampleQuery : Call := .query "SELECT @P1" [.i32 (some 7)]

theorem sampleQuery_deliverable : sampleQuery.Deliverable := by
  refine ⟨?_, ?_, fun param hparam => ?_⟩
  · change (putUnits (encodeUtf16 _)).length ≤ maxPlpSize
    decide +kernel
  · change (putUnits (encodeUtf16 _)).length ≤ maxPlpSize
    decide +kernel
  · rw [List.mem_singleton.mp hparam]
    trivial

set_option maxRecDepth 4000 in
/-- A query behind the login, and a commit that is dropped behind the third byte of its
packet. -/
theorem connect_calls_dropped :
    ∃ link dialogue response token prelogin login reply arrived torn,
      dialogue.posts.map Prod.snd = [true, false] ∧ dialogue.conn.poisoned = true ∧
      @Conversation plainPlatform userConfig admittingPeer .ascii link response token prelogin
        login reply ∧
      { link with conn := dialogue.conn }.heardMessages =
        { ty := .preLogin, payload := prelogin } :: { ty := .tdsv7Login, payload := login } ::
          (reply ++ arrived) ∧
      @Dialogue.Delivered .ascii .new dialogue arrived torn := by
  have hrun : ∃ link dialogue,
      @connect plainPlatform userConfig admittingPeer .exact .ascii = .returned () link ∧
        Reached (@Dialogue.step .exact .ascii) Dialogue.Sendable (.start link.conn) dialogue ∧
          dialogue.posts.map Prod.snd = [true, false] ∧ dialogue.conn.poisoned = true := by
    refine ⟨_, _, rfl, .tail (.tail (.tail .refl ⟨.call sampleQuery [], ?_, rfl⟩)
        ⟨.arrive cutDone.packets .silent, nofun, rfl⟩)
        ⟨.call .commitTransaction [.dropped 3], ?_, rfl⟩, ?_, ?_⟩
    · intro call fates hdeed
      cases hdeed
      exact sampleQuery_deliverable
    · intro call fates hdeed
      cases hdeed
      trivial
    · decide +kernel
    · decide +kernel
  obtain ⟨link, dialogue, hlink, hreach, hposts, hpoisoned⟩ := hrun
  obtain ⟨response, token, prelogin, login, reply, arrived, torn, hcalls⟩ :=
    @connect_calls .exact .ascii plainPlatform userConfig admittingPeer .new link hlink dialogue
      hreach
  exact ⟨link, dialogue, response, token, prelogin, login, reply, arrived, torn, hposts, hpoisoned,
    hcalls⟩

end Establish

end Tiberius
