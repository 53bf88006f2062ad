import Tiberius.Framing
import Tiberius.Guard
import Tiberius.Ledger
import Tiberius.Requests

/-!
A client and a server on one connection. The client makes requests, each behind
a flush of the stream, and reads the response or drops it at any point; the
server answers a request with the packets of one response, which are delivered
one by one. The transport stays open. A request whose flush waits is given up;
one that went on waiting is the same request made again. The run also records
which tokens have been sent and not read, and what every request was made with.
-/

namespace Tiberius

open Reading

/-- Where the token stream of the client stands. -/
inductive Phase where
  | idle
  | between (lastError : Option Error)
  | inside (reader : Reader ReceivedToken) (lastError : Option Error)

/-- The reader that a token stream goes on with. -/
def Phase.reader [EncodingRs] : Phase → Option (Reader ReceivedToken)
  | idle => none
  | between _ => some ReceivedToken.decode
  | inside reader _ => some reader

/-- A request handed to `send`: its payload, the packet size it is cut by, and
what the server had told before. -/
structure Sent where
  payload : List UInt8
  packetSize : UInt32
  ledger : Ledger
  deriving DecidableEq, Repr

/-- `unanswered` is a request that the server has not answered, `outgoing` are
the packets of a response that are not delivered. The last three fields only
record. -/
structure Exchange where
  conn : Connection
  phase : Phase
  unanswered : Bool
  outgoing : List Packet
  left : List ReceivedToken
  ledger : Ledger
  requests : List Sent

inductive Move where
  | request (request : ClientRequest) (fates : List Fate)
  | respond (response : Response)
  | deliver
  | next
  | dropStream
  | elapse (timeout : Duration)

/-- What a request of the client does before it is sent: the stream is flushed
and the request gets its descriptor and its packet id. -/
def Connection.prepare (conn : Connection) (request : ClientRequest) :
    Finished (PacketHeader × Except Error (List UInt8)) :=
  match conn.flushStream with
  | .returned (.ok ()) after =>
    let desc :=
      if request.builtBeforeFlush then conn.context.transactionDesc
      else after.context.transactionDesc
    let (id, context) := after.context.nextPacketId
    .returned (.ok (request.header id, request.encode desc)) { after with context := context }
  | .returned (.error error) after => .returned (.error error) after
  | .panicked after => .panicked after
  | .waiting after => .waiting after

namespace Exchange

/-- The login has been sent and nothing of its response has come. -/
def start (conn : Connection) : Exchange where
  conn := conn
  phase := .between none
  unanswered := true
  outgoing := []
  left := []
  ledger := conn.context.ledger
  requests := []

/-- The records of a request whose item could be encoded. -/
def recorded (exchange : Exchange) (conn : Connection) : Except Error (List UInt8) → List Sent
  | .ok payload => exchange.requests ++
      [{ payload := payload, packetSize := conn.context.packetSize, ledger := exchange.ledger }]
  | .error _ => exchange.requests

/-- A request: flush the stream, build the item, send it. -/
def request (exchange : Exchange) (request : ClientRequest) (fates : List Fate) : Exchange :=
  match exchange.conn.prepare request with
  | .returned (.ok (header, item)) conn =>
    match conn.send header item fates with
    | .returned (.ok ()) after =>
      { exchange with
        conn := after
        phase := .between none
        unanswered := true
        left := []
        requests := exchange.recorded conn item }
    | other =>
      { exchange with
        conn := other.conn
        phase := .idle
        requests := exchange.recorded conn item }
  | other => { exchange with conn := other.conn, phase := .idle }

/-- The client takes the answer of its token stream. -/
def answered (exchange : Exchange) : NextToken → Exchange
  | .token _ stream =>
    { exchange with
      conn := stream.conn
      phase := .between stream.lastError
      left := exchange.left.tail }
  | .pending reader stream =>
    { exchange with conn := stream.conn, phase := .inside reader stream.lastError }
  | ended => { exchange with conn := ended.conn, phase := .idle }

section

variable [EncodingRs]

def next (exchange : Exchange) : Option Exchange :=
  match exchange.phase with
  | .idle => none
  | .between lastError =>
    some (exchange.answered { conn := exchange.conn, lastError := lastError : TokenStream }.next)
  | .inside reader lastError =>
    some (exchange.answered
      ({ conn := exchange.conn, lastError := lastError : TokenStream }.resume reader))

/-- The server answers: its packets are on their way, and its tokens are sent. -/
def respond (exchange : Exchange) (response : Response) : Exchange :=
  let tokens := tokensSent exchange.conn.context response.bytes
  { exchange with
    unanswered := false
    outgoing := response.packets
    left := tokens
    ledger := exchange.ledger.recordAll tokens }

def step (exchange : Exchange) : Move → Option Exchange
  | .request request fates => some (exchange.request request fates)
  | .respond response => if exchange.unanswered then some (exchange.respond response) else none
  | .deliver =>
    match exchange.outgoing with
    | [] => none
    | packet :: rest =>
      some { exchange with conn := exchange.conn.arrive [packet] .silent, outgoing := rest }
  | .next => exchange.next
  | .dropStream => some { exchange with phase := .idle }
  | .elapse timeout =>
    match exchange.phase with
    | .inside _ lastError =>
      some (exchange.answered
        ({ conn := exchange.conn, lastError := lastError : TokenStream }.elapse timeout))
    | _ => none

end

end Exchange

/-- What is still to come of a response and whether it has been read to its end:
a connection is flushed exactly when no packet of it is missing. -/
structure Expects (unanswered : Bool) (outgoing : List Packet) (conn : Connection) : Prop where
  flushed : conn.flushed = (!unanswered && (conn.transport.inbound ++ outgoing).isEmpty)
  quiet : unanswered = true → conn.transport.inbound ++ outgoing = []
  ends : ∃ last, EndsWith last (conn.transport.inbound ++ outgoing)
  silent : conn.transport.ending = .silent

namespace Expects

variable {unanswered : Bool} {outgoing : List Packet} {conn after : Connection}

theorem of_eq (hexpects : Expects unanswered outgoing conn)
    (hinbound : after.transport.inbound = conn.transport.inbound)
    (hflushed : after.flushed = conn.flushed)
    (hending : after.transport.ending = conn.transport.ending) :
    Expects unanswered outgoing after where
  flushed := by rw [hflushed, hinbound, hexpects.flushed]
  quiet := by rw [hinbound]; exact hexpects.quiet
  ends := by rw [hinbound]; exact hexpects.ends
  silent := by rw [hending, hexpects.silent]

theorem of_taken (hexpects : Expects unanswered outgoing conn) {packet : Packet}
    {rest : List Packet} (hinbound : conn.transport.inbound = packet :: rest)
    (hrest : after.transport.inbound = rest) (hflushed : after.flushed = packet.isLast)
    (hending : after.transport.ending = conn.transport.ending) :
    Expects unanswered outgoing after := by
  obtain ⟨last, hends⟩ := hexpects.ends
  rw [hinbound, List.cons_append] at hends
  obtain ⟨hlast, -, hends⟩ := hends
  have hanswered : unanswered = false := by
    cases hflag : unanswered with
    | false => rfl
    | true =>
      have hnil := hexpects.quiet hflag
      rw [hinbound] at hnil
      cases hnil
  refine ⟨?_, ?_, ⟨last, ?_⟩, ?_⟩
  · rw [hflushed, hlast, hrest, hanswered]
    rfl
  · intro hflag
    rw [hanswered] at hflag
    cases hflag
  · rw [hrest]
    exact hends
  · rw [hending, hexpects.silent]

theorem nothing_missing (hexpects : Expects unanswered outgoing conn)
    (hflushed : conn.flushed = true) :
    unanswered = false ∧ conn.transport.inbound = [] ∧ outgoing = [] := by
  have hflag := hexpects.flushed
  rw [hflushed, eq_comm, Bool.and_eq_true, List.isEmpty_iff, List.append_eq_nil_iff] at hflag
  obtain ⟨hanswered, hinbound, houtgoing⟩ := hflag
  exact ⟨by simpa only [Bool.not_eq_true'] using hanswered, hinbound, houtgoing⟩

theorem missing_of_empty (hexpects : Expects unanswered outgoing conn)
    (hflushed : conn.flushed = false) (hinbound : conn.transport.inbound = []) :
    unanswered = true ∨ outgoing ≠ [] := by
  have hflag := hexpects.flushed
  rw [hflushed, hinbound, List.nil_append] at hflag
  cases hunanswered : unanswered with
  | true => exact Or.inl rfl
  | false =>
    refine Or.inr fun hnil => ?_
    rw [hunanswered, hnil] at hflag
    cases hflag

theorem missing_iff (hexpects : Expects unanswered outgoing conn) :
    conn.flushed = false ↔
      unanswered = true ∨ ∃ packet ∈ conn.transport.inbound ++ outgoing, packet.isLast = true := by
  constructor
  · intro hflushed
    by_cases hnil : conn.transport.inbound ++ outgoing = []
    · have hflag := hexpects.flushed
      rw [hflushed, hnil] at hflag
      cases hunanswered : unanswered with
      | true => exact Or.inl rfl
      | false =>
        rw [hunanswered] at hflag
        cases hflag
    · obtain ⟨last, hends⟩ := hexpects.ends
      obtain ⟨body, hbody⟩ := hends.getLast hnil
      refine Or.inr ⟨last, ?_, ?_⟩
      · rw [hbody]
        exact List.mem_append_right body List.mem_cons_self
      · exact hends.isLast_getLast hbody
  · intro hmissing
    rw [hexpects.flushed]
    rcases hmissing with hunanswered | ⟨packet, hpacket, -⟩
    · rw [hunanswered]
      rfl
    · rw [List.isEmpty_eq_false_iff.mpr (List.ne_nil_of_mem hpacket), Bool.and_false]

theorem deliver {packet : Packet} {rest : List Packet}
    (hexpects : Expects unanswered (packet :: rest) conn) :
    Expects unanswered rest (conn.arrive [packet] .silent) := by
  have hsame : conn.transport.inbound ++ [packet] ++ rest =
      conn.transport.inbound ++ packet :: rest := by
    rw [List.append_assoc, List.singleton_append]
  refine ⟨?_, fun hflag => hsame.trans (hexpects.quiet hflag), ?_, rfl⟩
  · have hflushed := hexpects.flushed
    rw [← hsame] at hflushed
    exact hflushed
  · obtain ⟨last, hends⟩ := hexpects.ends
    rw [← hsame] at hends
    exact ⟨last, hends⟩

end Expects

namespace Connection

variable {unanswered : Bool} {outgoing : List Packet} {conn : Connection}

theorem refill_expects (size fuel : ℕ) (hexpects : Expects unanswered outgoing conn) :
    Expects unanswered outgoing (refill size fuel conn).source := by
  induction fuel generalizing conn with
  | zero => exact hexpects
  | succ fuel ih =>
    cases hinbound : conn.transport.inbound with
    | nil =>
      rw [refill, pollNext, hinbound, hexpects.silent]
      exact hexpects.of_eq hinbound.symm rfl rfl
    | cons packet others =>
      have hnext : Expects unanswered outgoing (conn.buffered packet others) :=
        hexpects.of_taken hinbound rfl rfl rfl
      rw [refill_cons size fuel hinbound]
      split
      · exact hnext.of_eq rfl rfl rfl
      · exact ih hnext

theorem pollRead_expects (size : ℕ) (hexpects : Expects unanswered outgoing conn) :
    Expects unanswered outgoing (pollRead size conn).source := by
  unfold pollRead
  split
  · exact refill_expects size _ hexpects
  · exact hexpects.of_eq rfl rfl rfl

theorem drive_expects {α : Type} (reader : Reader α) (context : Context)
    (hexpects : Expects unanswered outgoing conn) :
    Expects unanswered outgoing (reader.drive pollRead context conn).source :=
  reader.drive_preserves (fun count _ hsource => pollRead_expects count hsource) context hexpects

/-- The drain of a response ends behind its last packet, or waits for it. -/
theorem drain_expects (fuel : ℕ) (hexpects : Expects unanswered outgoing conn)
    (hflushed : conn.flushed = false) (hfuel : conn.transport.inbound.length < fuel) :
    ∃ after, conn.Reads after ∧ Expects unanswered outgoing after ∧ after.buf = conn.buf ∧
      conn.transport.polls < after.transport.polls ∧
      (drain fuel conn = .returned (.ok ()) after ∧ after.flushed = true ∨
        drain fuel conn = .waiting after ∧ after.flushed = false ∧
          after.transport.inbound = []) := by
  induction fuel generalizing conn with
  | zero => omega
  | succ fuel ih =>
    unfold drain pollNext
    cases hinbound : conn.transport.inbound with
    | nil =>
      simp only [hexpects.silent]
      refine ⟨conn.polled [], rfl, hexpects.of_eq hinbound.symm rfl rfl, rfl, Nat.lt_succ_self _,
        Or.inr ⟨rfl, hflushed, rfl⟩⟩
    | cons packet rest =>
      have hnext : Expects unanswered outgoing { conn.polled rest with flushed := packet.isLast } :=
        hexpects.of_taken hinbound rfl rfl rfl
      have hreads : conn.Reads { conn.polled rest with flushed := packet.isLast } := rfl
      simp only
      cases hlast : packet.isLast with
      | true =>
        rw [hlast] at hnext hreads
        exact ⟨_, hreads, hnext, rfl, Nat.lt_succ_self _, Or.inl ⟨rfl, rfl⟩⟩
      | false =>
        rw [hlast] at hnext hreads
        have hshort : rest.length < fuel := by
          rw [hinbound, List.length_cons] at hfuel
          omega
        obtain ⟨after, hmore, hafter, hbuf, hpolls, hend⟩ := ih hnext rfl hshort
        exact ⟨after, hreads.trans hmore, hafter, hbuf, Nat.lt_of_succ_lt hpolls, hend⟩

/-- A flush of a usable connection leaves it behind its response, or waits for
what is missing of it; it asks for packets when the connection is not flushed. -/
theorem flushStream_expects (hexpects : Expects unanswered outgoing conn)
    (husable : conn.ensureNotPoisoned = .ok ()) :
    ∃ after, conn.Reads after ∧ Expects unanswered outgoing after ∧ after.buf = [] ∧
      (conn.flushed = false ↔ after.transport.polls ≠ conn.transport.polls) ∧
      (conn.flushStream = .returned (.ok ()) after ∧ after.flushed = true ∨
        conn.flushStream = .waiting after ∧ after.flushed = false ∧
          after.transport.inbound = []) := by
  have hdropped : Expects unanswered outgoing { conn with buf := [] } :=
    hexpects.of_eq rfl rfl rfl
  have hreads : conn.Reads { conn with buf := [] } := rfl
  unfold flushStream
  simp only [husable]
  cases hflushed : conn.flushed with
  | true =>
    rw [hflushed] at hreads hdropped
    refine ⟨_, hreads, hdropped, rfl, ?_, Or.inl ⟨rfl, rfl⟩⟩
    simp only [Bool.true_eq_false, ne_eq, not_true_eq_false]
  | false =>
    rw [hflushed] at hreads hdropped
    obtain ⟨after, hmore, hafter, hbuf, hpolls, hend⟩ :=
      drain_expects (conn.transport.inbound.length + 1) hdropped rfl (Nat.lt_succ_self _)
    refine ⟨after, hreads.trans hmore, hafter, hbuf, ?_, hend⟩
    exact ⟨fun _ => Nat.ne_of_gt hpolls, fun _ => rfl⟩

end Connection

/-- Reading a token keeps the connection with its response. -/
theorem TokenStream.resume_expects {unanswered : Bool} {outgoing : List Packet}
    (stream : TokenStream) (reader : Reader ReceivedToken)
    (hexpects : Expects unanswered outgoing stream.conn) :
    Expects unanswered outgoing (stream.resume reader).conn := by
  have hdrive := Connection.drive_expects reader stream.conn.context hexpects
  unfold resume
  cases hdriven : reader.drive Connection.pollRead stream.conn.context stream.conn with
  | done token after =>
    rw [hdriven] at hdrive
    simp only [accept]
    cases hreceive : after.context.receive token with
    | ok context => exact hdrive.of_eq rfl rfl rfl
    | error error => exact hdrive
  | failed fault after =>
    rw [hdriven] at hdrive
    cases fault <;> exact hdrive
  | pending left after =>
    rw [hdriven] at hdrive
    exact hdrive

/-- A write leaves the reading half and the context of a connection alone, and
leaves it not flushed. -/
structure Connection.Wrote (conn after : Connection) : Prop where
  inbound : after.transport.inbound = conn.transport.inbound
  ending : after.transport.ending = conn.transport.ending
  buf : after.buf = conn.buf
  context : after.context = conn.context
  desync : after.commandDesync = conn.commandDesync
  poisoned : after.poisoned = conn.poisoned
  flushed : after.flushed = false

namespace Connection

variable {conn middle after : Connection}

theorem Wrote.trans (hfirst : conn.Wrote middle) (hsecond : middle.Wrote after) :
    conn.Wrote after where
  inbound := hsecond.inbound.trans hfirst.inbound
  ending := hsecond.ending.trans hfirst.ending
  buf := hsecond.buf.trans hfirst.buf
  context := hsecond.context.trans hfirst.context
  desync := hsecond.desync.trans hfirst.desync
  poisoned := hsecond.poisoned.trans hfirst.poisoned
  flushed := hsecond.flushed

theorem flushSink_wrote (fate : Fate) (hflushed : conn.flushed = false) :
    conn.Wrote (conn.flushSink fate).conn := by
  cases fate <;> exact ⟨rfl, rfl, rfl, rfl, rfl, rfl, hflushed⟩

theorem writeToWire_wrote (message : ℕ) (header : PacketHeader) (data : List UInt8) (fate : Fate)
    (conn : Connection) : conn.Wrote (conn.writeToWire message header data fate).conn := by
  cases fate <;> exact ⟨rfl, rfl, rfl, rfl, rfl, rfl, rfl⟩

theorem sendLoop_wrote (message chunk fuel : ℕ) (header : PacketHeader) (payload : List UInt8)
    (fates : List Fate) (conn : Connection) (hflushed : conn.flushed = false) :
    conn.Wrote (sendLoop message chunk fuel header payload fates conn).conn := by
  induction fuel generalizing header payload fates conn with
  | zero => exact ⟨rfl, rfl, rfl, rfl, rfl, rfl, hflushed⟩
  | succ fuel ih =>
    unfold sendLoop
    split
    · exact flushSink_wrote _ hflushed
    · simp only
      generalize hattempt : writeToWire message _ _ (fates.headD .completes) conn = attempt
      have hwrote : conn.Wrote attempt.conn := by
        rw [← hattempt]
        exact writeToWire_wrote message _ _ (fates.headD .completes) conn
      by_cases hdone : ∃ after, attempt = .returned (.ok ()) after
      · obtain ⟨after, rfl⟩ := hdone
        exact hwrote.trans (ih _ _ _ after hwrote.flushed)
      · rw [Attempt.andThen_of_not_ok _ fun after hafter => hdone ⟨after, hafter⟩]
        exact hwrote

/-- A request whose item cannot be encoded has only marked the connection as not
flushed. -/
theorem send_unencoded {header : PacketHeader} {error : Error} {fates : List Fate}
    (husable : conn.ensureNotPoisoned = .ok ()) (hrange : conn.context.SizeInRange) :
    conn.send header (.error error) fates =
      .returned (.error error) { conn with flushed := false } := by
  obtain ⟨chunk, hchunk, -⟩ := hrange.chunkSize
  simp only [send, husable, hchunk]

/-- A request that is encoded goes out whole, or leaves the connection poisoned. -/
theorem send_encoded (header : PacketHeader) (payload : List UInt8) (fates : List Fate)
    (husable : conn.ensureNotPoisoned = .ok ()) (hrange : conn.context.SizeInRange) :
    (∃ after, conn.send header (.ok payload) fates = .returned (.ok ()) after ∧
      conn.Wrote after) ∨
    ((∀ after, conn.send header (.ok payload) fates ≠ .returned (.ok ()) after) ∧
      (conn.send header (.ok payload) fates).conn.poisoned = true ∧
      (conn.send header (.ok payload) fates).conn.context = conn.context) := by
  obtain ⟨chunk, hchunk, -⟩ := hrange.chunkSize
  have hclear := (not_poisoned_of_guard husable).1
  generalize hopened : (openMessage { conn with flushed := false }).2.poison = opened
  have hwrote := sendLoop_wrote conn.transport.messages chunk (payload.length + 1) header payload
    fates opened (by rw [← hopened]; rfl)
  have hsend : conn.send header (.ok payload) fates =
      (sendLoop conn.transport.messages chunk (payload.length + 1) header payload fates
        opened).andThen fun conn => .returned (.ok ()) conn.unpoison := by
    rw [← hopened]
    simp only [send, husable, hchunk]
    rfl
  rw [hsend]
  generalize sendLoop conn.transport.messages chunk (payload.length + 1) header payload fates
    opened = attempt at hwrote
  by_cases hdone : ∃ after, attempt = .returned (.ok ()) after
  · obtain ⟨after, rfl⟩ := hdone
    subst hopened
    refine Or.inl ⟨_, rfl, ?_⟩
    exact ⟨hwrote.inbound, hwrote.ending, hwrote.buf, hwrote.context, hwrote.desync, hclear.symm,
      hwrote.flushed⟩
  · rw [Attempt.andThen_of_not_ok _ fun after hafter => hdone ⟨after, hafter⟩]
    subst hopened
    exact Or.inr ⟨fun after hafter => hdone ⟨after, hafter⟩, hwrote.poisoned, hwrote.context⟩

end Connection

namespace Exchange

variable {exchange : Exchange}

/-- The connection behind a flush that came back: it waits for nothing, and what
the request takes from the context is what it was. -/
structure Flushed (exchange : Exchange) (prepared : Connection) : Prop where
  usable : exchange.conn.ensureNotPoisoned = .ok ()
  answered : exchange.unanswered = false
  outgoing : exchange.outgoing = []
  inbound : prepared.transport.inbound = []
  silent : prepared.transport.ending = .silent
  buf : prepared.buf = []
  guard : prepared.ensureNotPoisoned = .ok ()
  context : prepared.context = exchange.conn.context.nextPacketId.2

/-- The record of a request with the given payload. -/
def sentWith (exchange : Exchange) (payload : List UInt8) : Sent where
  payload := payload
  packetSize := exchange.conn.context.packetSize
  ledger := exchange.ledger

/-- Everything a request can do. -/
inductive Requested (exchange : Exchange) (request : ClientRequest) : Exchange → Prop where
  | rejected (hrejects : exchange.conn.ensureNotPoisoned ≠ .ok ()) :
      Requested exchange request { exchange with phase := .idle }
  | waits (after : Connection) (hreads : exchange.conn.Reads after)
      (hexpects : Expects exchange.unanswered exchange.outgoing after)
      (hmissing : exchange.unanswered = true ∨ exchange.outgoing ≠ []) :
      Requested exchange request { exchange with conn := after, phase := .idle }
  | unencoded (prepared : Connection) (error : Error) (hflushed : exchange.Flushed prepared)
      (hbody : request.body = .error error) :
      Requested exchange request
        { exchange with conn := { prepared with flushed := false }, phase := .idle }
  | sent (prepared after : Connection) (payload : List UInt8)
      (hflushed : exchange.Flushed prepared)
      (hitem : request.encode exchange.conn.context.transactionDesc = .ok payload)
      (hwrote : prepared.Wrote after) :
      Requested exchange request
        { exchange with
          conn := after
          phase := .between none
          unanswered := true
          left := []
          requests := exchange.requests ++ [exchange.sentWith payload] }
  | broken (prepared after : Connection) (payload : List UInt8)
      (hflushed : exchange.Flushed prepared)
      (hitem : request.encode exchange.conn.context.transactionDesc = .ok payload)
      (hpoisoned : after.poisoned = true) (hcontext : after.context = prepared.context) :
      Requested exchange request
        { exchange with
          conn := after
          phase := .idle
          requests := exchange.requests ++ [exchange.sentWith payload] }

theorem prepare_rejected {error : Error} (request : ClientRequest)
    (hguard : exchange.conn.ensureNotPoisoned = .error error) :
    exchange.conn.prepare request = .returned (.error error) exchange.conn := by
  simp only [Connection.prepare, Connection.flushStream, hguard]

/-- The descriptor of a request is the same before and behind the flush. -/
theorem prepare_flushed {after : Connection} (request : ClientRequest)
    (hreads : exchange.conn.Reads after)
    (hflush : exchange.conn.flushStream = .returned (.ok ()) after) :
    exchange.conn.prepare request =
      .returned (.ok (request.header exchange.conn.context.nextPacketId.1,
        request.encode exchange.conn.context.transactionDesc))
        { after with context := exchange.conn.context.nextPacketId.2 } := by
  have hcontext : after.context = exchange.conn.context := by
    rw [show after = _ from hreads]
    rfl
  simp only [Connection.prepare, hflush, hcontext, ite_self]

theorem flushed_of_flushStream {after : Connection}
    (husable : exchange.conn.ensureNotPoisoned = .ok ()) (hreads : exchange.conn.Reads after)
    (hexpects : Expects exchange.unanswered exchange.outgoing after) (hbuf : after.buf = [])
    (hflushed : after.flushed = true) :
    exchange.Flushed { after with context := exchange.conn.context.nextPacketId.2 } := by
  obtain ⟨hanswered, hinbound, houtgoing⟩ := hexpects.nothing_missing hflushed
  refine ⟨husable, hanswered, houtgoing, hinbound, hexpects.silent, hbuf, ?_, rfl⟩
  obtain ⟨hpoisoned, hdesync⟩ := Connection.not_poisoned_of_guard husable
  refine Connection.guard_of_not_poisoned ?_ ?_
  · rw [← hpoisoned, show after = _ from hreads]
    rfl
  · rw [← hdesync, show after = _ from hreads]
    rfl

theorem requested (request : ClientRequest) (fates : List Fate)
    (hrange : exchange.conn.context.SizeInRange)
    (hexpects : exchange.conn.poisoned = false →
      Expects exchange.unanswered exchange.outgoing exchange.conn) :
    Requested exchange request (exchange.request request fates) := by
  unfold Exchange.request
  cases hguard : exchange.conn.ensureNotPoisoned with
  | error error =>
    rw [prepare_rejected request hguard]
    exact .rejected (by rw [hguard]; simp only [ne_eq, reduceCtorEq, not_false_eq_true])
  | ok value =>
    have hclear := (Connection.not_poisoned_of_guard hguard).1
    obtain ⟨after, hreads, hafter, hbuf, -, hend⟩ :=
      Connection.flushStream_expects (hexpects hclear) hguard
    rcases hend with ⟨hflush, hflushed⟩ | ⟨hflush, hflushed, hinbound⟩
    · have hprepared := flushed_of_flushStream hguard hreads hafter hbuf hflushed
      rw [prepare_flushed request hreads hflush]
      generalize { after with context := exchange.conn.context.nextPacketId.2 } = prepared at *
      have hsize : prepared.context.SizeInRange := by
        rw [hprepared.context]
        exact hrange
      simp only
      cases hitem : request.encode exchange.conn.context.transactionDesc with
      | error error =>
        rw [Connection.send_unencoded hprepared.guard hsize]
        refine .unencoded prepared error hprepared ?_
        unfold ClientRequest.encode at hitem
        cases hbody : request.body with
        | ok body =>
          rw [hbody] at hitem
          cases hitem
        | error other =>
          rw [hbody] at hitem
          cases hitem
          rfl
      | ok payload =>
        have hsent : exchange.recorded prepared (.ok payload) =
            exchange.requests ++ [exchange.sentWith payload] := by
          rw [recorded, sentWith, hprepared.context]
          rfl
        rw [hsent]
        generalize request.header exchange.conn.context.nextPacketId.1 = header
        rcases Connection.send_encoded header payload fates hprepared.guard hsize with
          ⟨done, hsend, hwrote⟩ | ⟨hfail, hpoisoned, hcontext⟩
        · rw [hsend]
          exact .sent prepared done payload hprepared hitem hwrote
        · generalize prepared.send header (.ok payload) fates = attempt at *
          have hbroken := Requested.broken prepared attempt.conn payload hprepared hitem hpoisoned
            hcontext
          cases attempt with
          | returned result done =>
            cases result with
            | ok value => exact absurd rfl (hfail done)
            | error error => exact hbroken
          | dropped done => exact hbroken
          | panicked done => exact hbroken
          | running done => exact hbroken
    · simp only [Connection.prepare, hflush]
      exact .waits after hreads hafter (hafter.missing_of_empty hflushed hinbound)

/-- The connection is in range and, unless it is poisoned, with its response. -/
structure Aligned (exchange : Exchange) : Prop where
  range : exchange.conn.context.SizeInRange
  expects : exchange.conn.poisoned = false →
    Expects exchange.unanswered exchange.outgoing exchange.conn

/-- A request whose item cannot be encoded is made only while a response is
missing, so that its flush waits, or on a connection that rejects it. -/
def EncodesOrWaits (exchange : Exchange) (move : Move) : Prop :=
  ∀ request fates error, move = .request request fates → request.body = .error error →
    exchange.conn.ensureNotPoisoned ≠ .ok () ∨ exchange.unanswered = true ∨ exchange.outgoing ≠ []

/-- Nothing is missing and yet the connection is not flushed. -/
structure Stuck (exchange : Exchange) : Prop where
  range : exchange.conn.context.SizeInRange
  phase : exchange.phase = .idle
  answered : exchange.unanswered = false
  outgoing : exchange.outgoing = []
  inbound : exchange.conn.transport.inbound = []
  silent : exchange.conn.transport.ending = .silent
  flushed : exchange.conn.flushed = false

/-- A request leaves the connection with its response, unless its item cannot be
encoded behind a flush that came back. -/
theorem Requested.aligned_or_stuck {request : ClientRequest} {next : Exchange}
    (hrequested : Requested exchange request next) (haligned : exchange.Aligned) :
    next.Aligned ∨ next.Stuck ∧ exchange.conn.ensureNotPoisoned = .ok () ∧
      exchange.unanswered = false ∧ exchange.outgoing = [] ∧
      ∃ error, request.body = .error error := by
  cases hrequested with
  | rejected hrejects => exact Or.inl ⟨haligned.range, haligned.expects⟩
  | waits after hreads hexpects hmissing =>
    refine Or.inl ⟨?_, fun _ => hexpects⟩
    rw [show after = _ from hreads]
    exact haligned.range
  | unencoded prepared error hflushed hbody =>
    refine Or.inr ⟨?_, hflushed.usable, hflushed.answered, hflushed.outgoing, error, hbody⟩
    refine ⟨?_, rfl, hflushed.answered, hflushed.outgoing, hflushed.inbound, hflushed.silent, rfl⟩
    change prepared.context.SizeInRange
    rw [hflushed.context]
    exact haligned.range
  | sent prepared after payload hflushed hitem hwrote =>
    have hnothing : after.transport.inbound ++ exchange.outgoing = [] := by
      rw [hwrote.inbound, hflushed.inbound, hflushed.outgoing, List.append_nil]
    refine Or.inl ⟨?_, fun _ => ⟨hwrote.flushed, fun _ => hnothing, ⟨⟨.batch 0, []⟩, ?_⟩, ?_⟩⟩
    · rw [hwrote.context, hflushed.context]
      exact haligned.range
    · rw [hnothing]
      trivial
    · rw [hwrote.ending, hflushed.silent]
  | broken prepared after payload hflushed hitem hpoisoned hcontext =>
    refine Or.inl ⟨?_, fun hclear => ?_⟩
    · rw [hcontext, hflushed.context]
      exact haligned.range
    · rw [hpoisoned] at hclear
      cases hclear

@[simp] theorem answered_conn (token : NextToken) :
    (exchange.answered token).conn = token.conn := by
  cases token <;> rfl

@[simp] theorem answered_unanswered (token : NextToken) :
    (exchange.answered token).unanswered = exchange.unanswered := by
  cases token <;> rfl

@[simp] theorem answered_outgoing (token : NextToken) :
    (exchange.answered token).outgoing = exchange.outgoing := by
  cases token <;> rfl

end Exchange

/-- What an answer of a token stream leaves of its connection. -/
structure NextToken.Keeps (token : NextToken) (conn : Connection) : Prop where
  poisoned : token.conn.poisoned = conn.poisoned
  range : conn.context.SizeInRange → token.conn.context.SizeInRange
  expects : ∀ {unanswered : Bool} {outgoing : List Packet}, Expects unanswered outgoing conn →
    Expects unanswered outgoing token.conn

namespace TokenStream

variable [EncodingRs]

theorem resume_keeps (stream : TokenStream) (reader : Reader ReceivedToken) :
    (stream.resume reader).Keeps stream.conn := by
  obtain ⟨after, hreads, hconn⟩ := stream.resume_reads reader
  have hafter : after = _ := hreads
  have hcontext : after.context = stream.conn.context := by
    rw [hafter]
    rfl
  refine ⟨?_, fun hrange => ?_, fun hexpects => stream.resume_expects reader hexpects⟩
  · rcases hconn with hconn | ⟨token, context, -, hconn⟩ <;> rw [hconn, hafter] <;> rfl
  · rcases hconn with hconn | ⟨token, context, hreceive, hconn⟩
    · rw [hconn, hcontext]
      exact hrange
    · rw [hconn]
      rw [hcontext] at hreceive
      exact Context.receive_sizeInRange hrange hreceive

theorem next_keeps (stream : TokenStream) : stream.next.Keeps stream.conn := by
  unfold next
  split
  · unfold finish
    cases stream.lastError <;> exact ⟨rfl, id, id⟩
  · exact stream.resume_keeps _

end TokenStream

namespace Exchange

variable {exchange : Exchange}

theorem answered_aligned {token : NextToken} (hkeeps : token.Keeps exchange.conn)
    (haligned : exchange.Aligned) : (exchange.answered token).Aligned where
  range := by
    rw [answered_conn]
    exact hkeeps.range haligned.range
  expects := by
    rw [answered_conn, answered_unanswered, answered_outgoing, hkeeps.poisoned]
    exact fun hclear => hkeeps.expects (haligned.expects hclear)

variable [EncodingRs]

/-- Everything a step can do. -/
inductive Stepped (exchange : Exchange) : Move → Exchange → Prop where
  | request (request : ClientRequest) (fates : List Fate) :
      Stepped exchange (.request request fates) (exchange.request request fates)
  | respond (response : Response) (hunanswered : exchange.unanswered = true) :
      Stepped exchange (.respond response) (exchange.respond response)
  | deliver (packet : Packet) (rest : List Packet) (houtgoing : exchange.outgoing = packet :: rest) :
      Stepped exchange .deliver
        { exchange with conn := exchange.conn.arrive [packet] .silent, outgoing := rest }
  | between (lastError : Option Error) (hphase : exchange.phase = .between lastError) :
      Stepped exchange .next (exchange.answered
        { conn := exchange.conn, lastError := lastError : TokenStream }.next)
  | inside (reader : Reader ReceivedToken) (lastError : Option Error)
      (hphase : exchange.phase = .inside reader lastError) :
      Stepped exchange .next (exchange.answered
        ({ conn := exchange.conn, lastError := lastError : TokenStream }.resume reader))
  | dropStream : Stepped exchange .dropStream { exchange with phase := .idle }
  | elapse (timeout : Duration) (reader : Reader ReceivedToken) (lastError : Option Error)
      (hphase : exchange.phase = .inside reader lastError) :
      Stepped exchange (.elapse timeout) (exchange.answered
        ({ conn := exchange.conn, lastError := lastError : TokenStream }.elapse timeout))

theorem stepped {move : Move} {next : Exchange} (hstep : exchange.step move = some next) :
    Stepped exchange move next := by
  cases move with
  | request request fates =>
    cases hstep
    exact .request request fates
  | respond response =>
    rw [step] at hstep
    by_cases hunanswered : exchange.unanswered = true
    · rw [if_pos hunanswered] at hstep
      cases hstep
      exact .respond response hunanswered
    · rw [if_neg hunanswered] at hstep
      cases hstep
  | deliver =>
    rw [step] at hstep
    cases houtgoing : exchange.outgoing with
    | nil =>
      rw [houtgoing] at hstep
      cases hstep
    | cons packet rest =>
      rw [houtgoing] at hstep
      cases hstep
      exact .deliver packet rest houtgoing
  | next =>
    rw [step, Exchange.next] at hstep
    cases hphase : exchange.phase with
    | idle =>
      rw [hphase] at hstep
      cases hstep
    | between lastError =>
      rw [hphase] at hstep
      cases hstep
      exact .between lastError hphase
    | inside reader lastError =>
      rw [hphase] at hstep
      cases hstep
      exact .inside reader lastError hphase
  | dropStream =>
    cases hstep
    exact .dropStream
  | elapse timeout =>
    rw [step] at hstep
    cases hphase : exchange.phase with
    | idle =>
      rw [hphase] at hstep
      cases hstep
    | between lastError =>
      rw [hphase] at hstep
      cases hstep
    | inside reader lastError =>
      rw [hphase] at hstep
      cases hstep
      exact .elapse timeout reader lastError hphase

theorem respond_aligned (response : Response) (hunanswered : exchange.unanswered = true)
    (haligned : exchange.Aligned) : (exchange.respond response).Aligned := by
  refine ⟨haligned.range, fun hclear => ?_⟩
  have hexpects := haligned.expects hclear
  have hinbound := (List.append_eq_nil_iff.mp (hexpects.quiet hunanswered)).1
  have hpackets : response.packets ≠ [] :=
    List.append_ne_nil_of_right_ne_nil _ (List.cons_ne_nil _ _)
  refine ⟨?_, fun hflag => ?_, ⟨response.last, ?_⟩, hexpects.silent⟩
  · change exchange.conn.flushed =
      (true && (exchange.conn.transport.inbound ++ response.packets).isEmpty)
    have hmore : ([] ++ response.packets).isEmpty = false := List.isEmpty_eq_false_iff.mpr hpackets
    rw [hexpects.flushed, hunanswered, hinbound, hmore]
    rfl
  · cases hflag
  · change EndsWith response.last (exchange.conn.transport.inbound ++ response.packets)
    rw [hinbound]
    exact response.packets_endsWith

theorem step_aligned {move : Move} {next : Exchange} (haligned : exchange.Aligned)
    (hmeets : exchange.EncodesOrWaits move) (hstep : exchange.step move = some next) :
    next.Aligned := by
  cases stepped hstep with
  | request request fates =>
    rcases (requested request fates haligned.range haligned.expects).aligned_or_stuck haligned with
      hnext | ⟨-, husable, hanswered, houtgoing, error, hbody⟩
    · exact hnext
    · rcases hmeets request fates error rfl hbody with hrejects | hunanswered | hmissing
      · exact absurd husable hrejects
      · rw [hanswered] at hunanswered
        cases hunanswered
      · exact absurd houtgoing hmissing
  | respond response hunanswered => exact respond_aligned response hunanswered haligned
  | deliver packet rest houtgoing =>
    refine ⟨haligned.range, fun hclear => ?_⟩
    have hexpects := haligned.expects hclear
    rw [houtgoing] at hexpects
    exact hexpects.deliver
  | between lastError hphase => exact answered_aligned (TokenStream.next_keeps _) haligned
  | inside reader lastError hphase =>
    exact answered_aligned (TokenStream.resume_keeps _ reader) haligned
  | dropStream => exact ⟨haligned.range, haligned.expects⟩
  | elapse timeout reader lastError hphase =>
    refine answered_aligned ⟨rfl, id, fun hexpects => ?_⟩ haligned
    exact hexpects.of_eq rfl rfl rfl

end Exchange

/-- A connection whose login has just been sent. -/
structure Connection.Opened (conn : Connection) : Prop where
  inbound : conn.transport.inbound = []
  silent : conn.transport.ending = .silent
  flushed : conn.flushed = false
  buf : conn.buf = []
  range : conn.context.SizeInRange

/-- `flush_stream` asks the transport for packets. -/
def Connection.WaitsForPackets (conn : Connection) : Prop :=
  conn.flushStream.conn.transport.polls ≠ conn.transport.polls

namespace Exchange

variable {exchange : Exchange} {conn : Connection}

/-- A response that was asked for has not been received to its end. -/
def Owed (exchange : Exchange) : Prop :=
  exchange.unanswered = true ∨
    ∃ packet ∈ exchange.conn.transport.inbound ++ exchange.outgoing, packet.isLast = true

/-- `flush_stream` waits for packets exactly when a response is owed, and keeps
waiting only for packets that the server has still to send or to deliver. -/
def WaitsWhenOwed (exchange : Exchange) : Prop :=
  exchange.conn.poisoned = false →
    (exchange.conn.flushed = false ↔ exchange.Owed) ∧
      (exchange.conn.commandDesync = false →
        (exchange.conn.WaitsForPackets ↔ exchange.Owed) ∧
          ∀ after, exchange.conn.flushStream = .waiting after →
            exchange.unanswered = true ∨ exchange.outgoing ≠ [])

theorem start_aligned (hopened : conn.Opened) : (start conn).Aligned := by
  have hnothing : conn.transport.inbound ++ [] = [] := by rw [hopened.inbound, List.append_nil]
  refine ⟨hopened.range, fun _ => ⟨hopened.flushed, fun _ => hnothing, ⟨⟨.batch 0, []⟩, ?_⟩,
    hopened.silent⟩⟩
  change EndsWith _ (conn.transport.inbound ++ [])
  rw [hnothing]
  trivial

end Exchange

/-- In every run whose requests can be encoded whenever their flush comes back,
no flush waits for a response that nobody asked for. -/
theorem flush_waits_iff_owed [EncodingRs] {conn : Connection} {exchange : Exchange}
    (hopened : conn.Opened)
    (hreach : Reached Exchange.step Exchange.EncodesOrWaits (.start conn) exchange) :
    exchange.WaitsWhenOwed := by
  intro hpoisoned
  have haligned : exchange.Aligned :=
    hreach.keeps Exchange.Aligned (Exchange.start_aligned hopened)
      fun _ _ _ haligned hmeets hstep => Exchange.step_aligned haligned hmeets hstep
  have hexpects := haligned.expects hpoisoned
  refine ⟨hexpects.missing_iff, fun hdesync => ?_⟩
  obtain ⟨after, -, hafter, -, hpolls, hend⟩ := Connection.flushStream_expects hexpects
    (Connection.guard_of_not_poisoned hpoisoned hdesync)
  have hconn : exchange.conn.flushStream.conn = after := by
    rcases hend with ⟨hflush, -⟩ | ⟨hflush, -⟩ <;> rw [hflush] <;> rfl
  refine ⟨?_, fun waiting hwaiting => ?_⟩
  · rw [Connection.WaitsForPackets, hconn]
    exact hpolls.symm.trans hexpects.missing_iff
  · rcases hend with ⟨hflush, -⟩ | ⟨-, hflushed, hinbound⟩
    · rw [hflush] at hwaiting
      cases hwaiting
    · exact hafter.missing_of_empty hflushed hinbound

theorem new_opened : (Connection.new [] .silent).Opened :=
  ⟨rfl, rfl, rfl, rfl, Context.new_sizeInRange⟩

/-- A batch behind a login whose response is flushed away unread. -/
theorem flush_waits_iff_owed_batch :
    ∃ exchange, Reached (@Exchange.step .ascii) Exchange.EncodesOrWaits
        (.start (.new [] .silent)) exchange ∧
      exchange.conn.poisoned = false ∧ exchange.conn.flushed = false ∧ exchange.WaitsWhenOwed := by
  have hreach : ∃ exchange, Reached (@Exchange.step .ascii) Exchange.EncodesOrWaits
        (.start (.new [] .silent)) exchange ∧
      exchange.conn.poisoned = false ∧ exchange.conn.flushed = false := by
    refine ⟨_, .tail (.tail (.tail (.tail .refl ⟨.respond cutDone, ?_, rfl⟩) ⟨.deliver, ?_, rfl⟩)
      ⟨.deliver, ?_, rfl⟩) ⟨.request (.batch "A") [], ?_, rfl⟩, ?_, ?_⟩
    · intro request fates error hmove
      cases hmove
    · intro request fates error hmove
      cases hmove
    · intro request fates error hmove
      cases hmove
    · intro request fates error hmove hbody
      cases hmove
      cases hbody
    · decide +kernel
    · decide +kernel
  obtain ⟨exchange, hreach, hpoisoned, hflushed⟩ := hreach
  exact ⟨exchange, hreach, hpoisoned, hflushed,
    @flush_waits_iff_owed .ascii _ _ new_opened hreach⟩

/-- A savepoint whose name is one unit too long for its length byte. -/
def longSavepoint : ClientRequest :=
  .transactionManager (.save (String.ofList (List.replicate 256 'a')))

theorem longSavepoint_refused (desc : Vector UInt8 8) :
    longSavepoint.encode desc = .error (.protocol
      "string is too long for a B_VARCHAR (256 UTF-16 code units, max 255)") := by
  have hname : encodeBVarchar (String.ofList (List.replicate 256 'a')) = .error (.protocol
      "string is too long for a B_VARCHAR (256 UTF-16 code units, max 255)") := by
    rw [encodeBVarchar, String.toList_ofList]
    decide +kernel
  simp only [longSavepoint, ClientRequest.encode, ClientRequest.body,
    TransactionRequestBody.encode, hname]
  rfl

/-- The savepoint is refused, and the next flush waits for a response to it. -/
theorem longSavepoint_waits :
    ¬∀ (conn : Connection) (exchange : Exchange), conn.Opened →
      Reached (@Exchange.step .ascii) (fun _ _ => True) (.start conn) exchange →
        exchange.WaitsWhenOwed := by
  intro hwaits
  have hrun : (perform (@Exchange.step .ascii) (.start (.new [] .silent))
        [.respond cutDone, .deliver, .deliver, .request longSavepoint []]).map
      (fun exchange => (exchange.conn.poisoned, exchange.conn.flushed, exchange.unanswered,
        exchange.conn.transport.inbound ++ exchange.outgoing)) =
        some (false, false, false, []) := by
    simp only [perform, Exchange.step, Exchange.request, Connection.prepare, longSavepoint_refused]
    decide +kernel
  obtain ⟨exchange, hperform, hstate⟩ := Option.map_eq_some_iff.mp hrun
  simp only [Prod.mk.injEq] at hstate
  obtain ⟨hpoisoned, hflushed, hanswered, hnothing⟩ := hstate
  have howed := (hwaits _ exchange new_opened (Reached.of_perform _ hperform) hpoisoned).1.mp
    hflushed
  rcases howed with hunanswered | ⟨packet, hpacket, -⟩
  · rw [hanswered] at hunanswered
    cases hunanswered
  · rw [hnothing] at hpacket
    cases hpacket

end Tiberius
