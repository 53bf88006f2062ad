import Tiberius.Delivery

/-!
The bytes of a connection that no decoder has read. Reads take them from their
front, whatever messages they belong to; what a reader that waits has read stays
read, and it goes on with the bytes that come. So a token that a stream yields is
the one that the bytes begin with.
-/

namespace Tiberius

open Reading

/-- The bytes that no decoder has read, received or still to come. -/
def Connection.toCome (conn : Connection) (outgoing : List Packet) : List UInt8 :=
  conn.unread ++ outgoing.flatMap Packet.payload

/-- A packet that is delivered is no longer to come. -/
theorem Connection.toCome_arrive (conn : Connection) (packet : Packet) (rest : List Packet)
    (ending : Ending) : (conn.arrive [packet] ending).toCome rest = conn.toCome (packet :: rest) := by
  change conn.buf ++ (conn.transport.inbound ++ [packet]).flatMap Packet.payload ++
    rest.flatMap Packet.payload = _
  rw [toCome, unread, List.flatMap_append, List.flatMap_singleton, List.flatMap_cons,
    List.append_assoc, List.append_assoc, List.append_assoc]

namespace Connection

theorem refill_shows {size fuel : ℕ} {conn : Connection} :
    (∀ bytes after, refill size fuel conn = .ready bytes after →
      conn.unread = bytes ++ after.unread ∧ bytes.length = size) ∧
    ∀ after, refill size fuel conn = .pending after → after.unread = conn.unread := by
  induction fuel generalizing conn with
  | zero =>
    refine ⟨fun bytes after hrefill => ?_, fun after hrefill => ?_⟩
    · cases hrefill
    · cases hrefill
      rfl
  | succ fuel ih =>
    cases hinbound : conn.transport.inbound with
    | nil =>
      rw [refill, pollNext, hinbound]
      refine ⟨fun bytes after hrefill => ?_, fun after hrefill => ?_⟩
      · cases hending : conn.transport.ending <;> rw [hending] at hrefill <;> cases hrefill
      · cases hending : conn.transport.ending <;> rw [hending] at hrefill <;> cases hrefill
        rw [unread, unread, hinbound]
        rfl
    | cons packet others =>
      have hunread : conn.unread = (conn.buffered packet others).unread := by
        rw [unread, hinbound, List.flatMap_cons, ← List.append_assoc]
        rfl
      rw [refill_cons size fuel hinbound, hunread]
      by_cases henough : size ≤ (conn.buffered packet others).buf.length
      · rw [if_pos henough]
        refine ⟨fun bytes after hrefill => ?_, fun after hrefill => ?_⟩
        · cases hrefill
          refine ⟨?_, List.length_take_of_le henough⟩
          rw [unread, unread, ← List.append_assoc, List.take_append_drop]
        · cases hrefill
      · rw [if_neg henough]
        exact ih

/-- The connection shows its unread bytes. -/
theorem pollRead_shows : Shows pollRead unread where
  ready := by
    intro size conn after bytes hpoll
    unfold pollRead at hpoll
    split at hpoll
    · exact refill_shows.1 bytes after hpoll
    · rename_i henough
      cases hpoll
      refine ⟨?_, List.length_take_of_le (Nat.le_of_not_lt henough)⟩
      rw [unread, unread, ← List.append_assoc, List.take_append_drop]
  pending := by
    intro size conn after hpoll
    unfold pollRead at hpoll
    split at hpoll
    · exact refill_shows.2 after hpoll
    · cases hpoll

theorem refill_ready {size fuel : ℕ} {conn : Connection} (hshort : conn.buf.length < size)
    (hsize : size ≤ conn.unread.length) (hfuel : conn.transport.inbound.length ≤ fuel) :
    ∃ bytes after, refill size fuel conn = .ready bytes after := by
  induction fuel generalizing conn with
  | zero =>
    have hinbound := List.length_eq_zero_iff.mp (Nat.le_zero.mp hfuel)
    rw [unread, hinbound, List.flatMap_nil, List.append_nil] at hsize
    omega
  | succ fuel ih =>
    cases hinbound : conn.transport.inbound with
    | nil =>
      rw [unread, hinbound, List.flatMap_nil, List.append_nil] at hsize
      omega
    | cons packet others =>
      have hunread : conn.unread = (conn.buffered packet others).unread := by
        rw [unread, hinbound, List.flatMap_cons, ← List.append_assoc]
        rfl
      rw [refill_cons size fuel hinbound]
      by_cases henough : size ≤ (conn.buffered packet others).buf.length
      · rw [if_pos henough]
        exact ⟨_, _, rfl⟩
      · rw [if_neg henough]
        refine ih (Nat.lt_of_not_le henough) (by rw [← hunread]; exact hsize) ?_
        rw [hinbound, List.length_cons] at hfuel
        exact Nat.le_of_succ_le_succ hfuel

/-- A read within the unread bytes is served. -/
theorem pollRead_serves_unread : Serves pollRead fun conn bytes => conn.unread = bytes where
  serve := by
    intro conn bytes count hunread hcount
    have hready : ∃ taken after, pollRead count conn = .ready taken after := by
      unfold pollRead
      split
      · rename_i hshort
        exact refill_ready hshort (by rw [hunread]; exact hcount) (Nat.le_succ _)
      · exact ⟨_, _, rfl⟩
    obtain ⟨taken, after, hpoll⟩ := hready
    obtain ⟨hsplit, hlength⟩ := pollRead_shows.ready hpoll
    rw [hunread] at hsplit
    refine ⟨after, ?_, ?_⟩
    · rw [hpoll, hsplit, List.take_left' hlength]
    · rw [hsplit, List.drop_left' hlength]

theorem refill_silent {size fuel : ℕ} {conn : Connection}
    (hsilent : conn.transport.ending = .silent) :
    ∀ fault after, refill size fuel conn ≠ .broken fault after := by
  induction fuel generalizing conn with
  | zero =>
    intro fault after hrefill
    cases hrefill
  | succ fuel ih =>
    cases hinbound : conn.transport.inbound with
    | nil =>
      rw [refill, pollNext, hinbound, hsilent]
      intro fault after hrefill
      cases hrefill
    | cons packet others =>
      rw [refill_cons size fuel hinbound]
      split
      · intro fault after hrefill
        cases hrefill
      · exact ih hsilent

theorem refill_pending {size fuel : ℕ} {conn after : Connection}
    (hshort : conn.buf.length < size) (hfuel : conn.transport.inbound.length < fuel)
    (hrefill : refill size fuel conn = .pending after) :
    after.transport.inbound = [] ∧ after.buf.length < size := by
  induction fuel generalizing conn with
  | zero => omega
  | succ fuel ih =>
    cases hinbound : conn.transport.inbound with
    | nil =>
      rw [refill, pollNext, hinbound] at hrefill
      cases hending : conn.transport.ending <;> rw [hending] at hrefill <;> cases hrefill
      exact ⟨rfl, hshort⟩
    | cons packet others =>
      rw [refill_cons size fuel hinbound] at hrefill
      by_cases henough : size ≤ (conn.buffered packet others).buf.length
      · rw [if_pos henough] at hrefill
        cases hrefill
      · rw [if_neg henough] at hrefill
        refine ih (Nat.lt_of_not_le henough) ?_ hrefill
        rw [hinbound, List.length_cons] at hfuel
        exact Nat.lt_of_succ_lt_succ hfuel

/-- A read that waits has taken every packet there is. -/
theorem pollRead_pending {size : ℕ} {conn after : Connection}
    (hpoll : pollRead size conn = .pending after) :
    after.transport.inbound = [] ∧ after.buf.length < size := by
  unfold pollRead at hpoll
  split at hpoll
  · rename_i hshort
    exact refill_pending hshort (Nat.lt_succ_self _) hpoll
  · cases hpoll

/-- On a transport that stays open no read breaks. -/
theorem pollRead_silent {size : ℕ} {conn : Connection}
    (hsilent : conn.transport.ending = .silent) :
    ∀ fault after, pollRead size conn ≠ .broken fault after := by
  unfold pollRead
  split
  · exact refill_silent hsilent
  · intro fault after hpoll
    cases hpoll

end Connection

/-- Everything a stream can answer: a token of the unread bytes, an end of the
stream, or a reader that waits behind some of these bytes. -/
inductive TokenStream.Resumed (stream : TokenStream) (reader : Reader ReceivedToken) :
    NextToken → Prop where
  | token (token : ReceivedToken) (conn : Connection) (context : Context)
      (lastError : Option Error)
      (hrun : ∀ more, reader.run stream.conn.context (stream.conn.unread ++ more) =
        .done token (conn.unread ++ more))
      (hreceive : stream.conn.context.receive token = .ok context) :
      Resumed stream reader
        (.token token { conn := { conn with context := context }, lastError := lastError })
  | finished (conn : Connection) (hreads : stream.conn.Reads conn) :
      Resumed stream reader (.finished conn)
  | failed (error : Error) (conn : Connection) (hreads : stream.conn.Reads conn) :
      Resumed stream reader (.failed error conn)
  | panicked (conn : Connection) (hreads : stream.conn.Reads conn) :
      Resumed stream reader (.panicked conn)
  | pending (left : Reader ReceivedToken) (conn : Connection) (lastError : Option Error)
      (hreads : stream.conn.Reads conn)
      (hsuffix : ∃ used, stream.conn.unread = used ++ conn.unread)
      (hrun : ∀ more, reader.run stream.conn.context (stream.conn.unread ++ more) =
        left.run stream.conn.context (conn.unread ++ more)) :
      Resumed stream reader (.pending left { conn := conn, lastError := lastError })

theorem Connection.Reads.context_eq {conn after : Connection} (hreads : conn.Reads after) :
    after.context = conn.context := by
  rw [show after = _ from hreads]
  rfl

theorem TokenStream.resumed (stream : TokenStream) (reader : Reader ReceivedToken) :
    stream.Resumed reader (stream.resume reader) := by
  have hdriven := Connection.drive_reads reader stream.conn.context stream.conn
  unfold resume
  cases hdrive : reader.drive Connection.pollRead stream.conn.context stream.conn with
  | done token conn =>
    rw [hdrive] at hdriven
    have hcontext : conn.context = stream.conn.context := hdriven.context_eq
    simp only [accept, hcontext]
    cases hreceive : stream.conn.context.receive token with
    | ok context =>
      exact .token token conn context _ (Connection.pollRead_shows.run_of_drive_done hdrive)
        hreceive
    | error error => exact .failed error conn hdriven
  | failed fault conn =>
    rw [hdrive] at hdriven
    cases fault with
    | error error => exact .failed error conn hdriven
    | panic => exact .panicked conn hdriven
  | pending left conn =>
    rw [hdrive] at hdriven
    obtain ⟨hsuffix, hrun⟩ := Connection.pollRead_shows.run_of_drive_pending hdrive
    exact .pending left conn stream.lastError hdriven hsuffix hrun

theorem TokenStream.next_resumed [EncodingRs] (stream : TokenStream) :
    stream.Resumed ReceivedToken.decode stream.next := by
  unfold next
  split
  · unfold finish
    cases stream.lastError with
    | none => exact .finished stream.conn (Connection.Reads.refl _)
    | some error => exact .failed error stream.conn (Connection.Reads.refl _)
  · exact stream.resumed _

end Tiberius
