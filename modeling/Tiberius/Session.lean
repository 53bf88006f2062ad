import Tiberius.BulkLoad
import Tiberius.Reading.Runs

/-!
The operations on one connection as a transition system. A bulk request borrows
the connection, so while one is open only its own operations are possible. An
operation that was dropped or that panicked leaves the connection as it stood.
Reading a token may start at any read of a decoder, which covers streams that
are dropped and taken up again, and packets may arrive at any time.
-/

namespace Tiberius

open Reading

structure Session where
  conn : Connection
  bulk : Option BulkLoadRequest
  deriving DecidableEq, Repr

inductive Action where
  | send (header : PacketHeader) (item : Except Error (List UInt8)) (fates : List Fate)
  | sendSensitiveLogin (header : PacketHeader) (payload : List UInt8) (fates : List Fate)
  | sendAttention (fates : List Fate)
  | bulkNew (cmd : Except Error (List UInt8))
  | bulkSend (row : Except Error (List UInt8)) (fates : List Fate)
  | bulkFinalize (fates : List Fate)
  | bulkDrop
  | flushStream
  | read (reader : Reader ReceivedToken)
  | elapse (timeout : Duration)
  | arrive (packets : List Packet) (ending : Ending)

/-- The connection an answer of a token stream leaves. -/
def NextToken.conn : NextToken → Connection
  | token _ stream => stream.conn
  | finished conn => conn
  | failed _ conn => conn
  | panicked conn => conn
  | pending _ stream => stream.conn

namespace Session

def new (inbound : List Packet) (ending : Ending) : Session where
  conn := .new inbound ending
  bulk := none

/-- An operation of the connection itself, which no bulk request may borrow. -/
def onConnection (session : Session) (operation : Connection → Connection) : Option Session :=
  match session.bulk with
  | none => some { session with conn := operation session.conn }
  | some _ => none

def step [EncodingRs] (session : Session) : Action → Option Session
  | .send header item fates => session.onConnection fun conn => (conn.send header item fates).conn
  | .sendSensitiveLogin header payload fates =>
    session.onConnection fun conn => (conn.sendSensitiveLogin header payload fates).conn
  | .sendAttention fates => session.onConnection fun conn => (conn.sendAttention fates).conn
  | .bulkNew cmd =>
    match session.bulk with
    | some _ => none
    | none =>
      match BulkLoadRequest.new cmd session.conn with
      | (.ok request, conn) => some { conn := conn, bulk := some request }
      | (.error _, conn) => some { conn := conn, bulk := none }
  | .bulkSend row fates =>
    session.bulk.map fun request =>
      let (attempt, request) := request.send row fates session.conn
      { conn := attempt.conn, bulk := some request }
  | .bulkFinalize fates =>
    session.bulk.map fun request =>
      { conn := (request.finalize fates session.conn).conn, bulk := none }
  | .bulkDrop => session.bulk.map fun _ => { session with bulk := none }
  | .flushStream => session.onConnection fun conn => conn.flushStream.conn
  | .read reader =>
    session.onConnection fun conn => ((TokenStream.new conn).resume reader).conn
  | .elapse timeout => session.onConnection fun conn =>
      ((TokenStream.new conn).elapse timeout).conn
  | .arrive packets ending => some { session with conn := session.conn.arrive packets ending }

end Session

/-- The connection after reading: only what a read changes is replaced. -/
def Connection.reread (conn : Connection) (flushed : Bool) (buf : List UInt8)
    (inbound : List Packet) (polls : ℕ) : Connection :=
  { conn with
    flushed := flushed
    buf := buf
    transport := { conn.transport with inbound := inbound, polls := polls } }

/-- Nothing but the reading half has changed. -/
def Connection.Reads (conn after : Connection) : Prop :=
  after = conn.reread after.flushed after.buf after.transport.inbound after.transport.polls

namespace Connection

variable {conn middle after : Connection}

theorem Reads.refl (conn : Connection) : conn.Reads conn := rfl

theorem Reads.trans (hfirst : conn.Reads middle) (hsecond : middle.Reads after) :
    conn.Reads after := by
  unfold Reads at hsecond ⊢
  rw [hsecond, hfirst]
  rfl

theorem refill_reads (size fuel : ℕ) (conn : Connection) :
    conn.Reads (refill size fuel conn).source := by
  induction fuel generalizing conn with
  | zero => exact Reads.refl conn
  | succ fuel ih =>
    unfold refill pollNext
    cases hinbound : conn.transport.inbound with
    | nil =>
      cases hending : conn.transport.ending <;> rfl
    | cons packet rest =>
      simp only
      split
      · rfl
      · refine Reads.trans ?_ (ih _)
        rfl

theorem pollRead_reads (size : ℕ) (conn : Connection) :
    conn.Reads (pollRead size conn).source := by
  unfold pollRead
  split
  · exact refill_reads size _ conn
  · rfl

theorem drive_reads {α : Type} (reader : Reader α) (context : Context) (conn : Connection) :
    conn.Reads (reader.drive pollRead context conn).source :=
  reader.drive_preserves (fun count source hreads => hreads.trans (pollRead_reads count source))
    context (Reads.refl conn)

/-- Draining reads packets, and poisons the connection when the transport fails. -/
theorem drain_reads (fuel : ℕ) (conn : Connection) :
    ∃ after, conn.Reads after ∧
      ((drain fuel conn).conn = after ∨ (drain fuel conn).conn = after.poison) := by
  induction fuel generalizing conn with
  | zero => exact ⟨conn, Reads.refl conn, Or.inl rfl⟩
  | succ fuel ih =>
    unfold drain pollNext
    cases hinbound : conn.transport.inbound with
    | nil =>
      refine ⟨conn.polled [], rfl, ?_⟩
      cases hending : conn.transport.ending with
      | silent => exact Or.inl rfl
      | closed => exact Or.inl rfl
      | failing error => exact Or.inr rfl
    | cons packet rest =>
      simp only
      split
      · exact ⟨{ conn.polled rest with flushed := packet.isLast }, rfl, Or.inl rfl⟩
      · have hpoll : conn.Reads { conn.polled rest with flushed := packet.isLast } := rfl
        obtain ⟨after, hreads, hconn⟩ := ih { conn.polled rest with flushed := packet.isLast }
        exact ⟨after, hpoll.trans hreads, hconn⟩

theorem flushStream_reads (conn : Connection) :
    ∃ after, conn.Reads after ∧
      (conn.flushStream.conn = after ∨ conn.flushStream.conn = after.poison) := by
  unfold flushStream
  cases hguard : conn.ensureNotPoisoned with
  | error error => exact ⟨conn, Reads.refl conn, Or.inl rfl⟩
  | ok value =>
    simp only
    split
    · exact ⟨{ conn with buf := [] }, rfl, Or.inl rfl⟩
    · have hdrop : conn.Reads { conn with buf := [] } := rfl
      obtain ⟨after, hreads, hconn⟩ :=
        drain_reads (conn.transport.inbound.length + 1) { conn with buf := [] }
      exact ⟨after, hdrop.trans hreads, hconn⟩

end Connection

namespace TokenStream

/-- Taking up a token reads from the connection and may record it. -/
theorem resume_reads [EncodingRs] (stream : TokenStream) (reader : Reader ReceivedToken) :
    ∃ after, stream.conn.Reads after ∧
      ((stream.resume reader).conn = after ∨
        ∃ token context, after.context.receive token = .ok context ∧
          (stream.resume reader).conn = { after with context := context }) := by
  have hdrive := Connection.drive_reads reader stream.conn.context stream.conn
  unfold resume
  cases hdriven : reader.drive Connection.pollRead stream.conn.context stream.conn with
  | done token after =>
    rw [hdriven] at hdrive
    refine ⟨after, hdrive, ?_⟩
    simp only [accept]
    cases hreceive : after.context.receive token with
    | ok context => exact Or.inr ⟨token, context, hreceive, rfl⟩
    | error error => exact Or.inl rfl
  | failed fault after =>
    rw [hdriven] at hdrive
    refine ⟨after, hdrive, Or.inl ?_⟩
    cases fault <;> rfl
  | pending left after =>
    rw [hdriven] at hdrive
    exact ⟨after, hdrive, Or.inl rfl⟩

end TokenStream

end Tiberius
