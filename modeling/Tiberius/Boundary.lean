import Tiberius.Delivery

/-!
The boundary between two messages. The refill loop of a read takes packets until
it has enough bytes and does not ask whether the response has ended, so a read
that the response cannot serve polls for a packet behind it. A response is read
within its own packets exactly when its bytes run out at the end of a token and
the packet that ends it is not empty, or when a token of it is refused.
-/

namespace Tiberius

open Reading

namespace Connection

variable {last : Packet} {later : List Packet} {total : ℕ}

theorem refill_polls_le (size fuel : ℕ) (conn : Connection) :
    conn.transport.polls ≤ (refill size fuel conn).source.transport.polls := by
  induction fuel generalizing conn with
  | zero => exact Nat.le_refl _
  | succ fuel ih =>
    cases hinbound : conn.transport.inbound with
    | nil =>
      rw [refill, pollNext, hinbound]
      cases hending : conn.transport.ending <;> exact Nat.le_succ _
    | cons packet rest =>
      rw [refill_cons size fuel hinbound]
      split
      · exact Nat.le_succ _
      · exact Nat.le_trans (Nat.le_succ conn.transport.polls) (ih (conn.buffered packet rest))

theorem pollRead_polls_le (size : ℕ) (conn : Connection) :
    conn.transport.polls ≤ (pollRead size conn).source.transport.polls := by
  unfold pollRead
  split
  · exact refill_polls_le size _ conn
  · exact Nat.le_refl _

theorem drive_polls_le {α : Type} (reader : Reader α) (context : Context) (conn : Connection) :
    conn.transport.polls ≤ (reader.drive pollRead context conn).source.transport.polls := by
  have hpoll : ∀ count source, conn.transport.polls ≤ source.transport.polls →
      conn.transport.polls ≤ (pollRead count source).source.transport.polls :=
    fun count source hle => Nat.le_trans hle (pollRead_polls_le count source)
  exact @Program.drive_preserves Fault Context UInt8 Connection α pollRead
    (fun source => conn.transport.polls ≤ source.transport.polls) hpoll reader context conn
    (Nat.le_refl _)

/-- A refill that the rest of the response cannot serve asks for one packet more. -/
theorem refill_beyond {count : ℕ} (rest : List Packet) {conn : Connection} {fuel : ℕ}
    (hinbound : conn.transport.inbound = rest ++ later)
    (hpolls : conn.transport.polls + rest.length = total)
    (hshort : (conn.buf ++ rest.flatMap Packet.payload).length < count)
    (hfuel : rest.length < fuel) : total < (refill count fuel conn).source.transport.polls := by
  obtain ⟨fuel, rfl⟩ : ∃ turns, fuel = turns + 1 := ⟨fuel - 1, by omega⟩
  induction rest generalizing conn fuel with
  | nil =>
    have htotal : total < conn.transport.polls + 1 := by
      rw [List.length_nil] at hpolls
      omega
    cases hnext : conn.transport.inbound with
    | nil =>
      rw [refill, pollNext, hnext]
      cases hending : conn.transport.ending <;> exact htotal
    | cons packet others =>
      rw [refill_cons count fuel hnext]
      split
      · exact htotal
      · exact Nat.lt_of_lt_of_le htotal (refill_polls_le count fuel (conn.buffered packet others))
  | cons packet rest ih =>
    obtain ⟨fuel, rfl⟩ : ∃ turns, fuel = turns + 1 := ⟨fuel - 1, by
      rw [List.length_cons] at hfuel
      omega⟩
    generalize hnext : conn.buffered packet (rest ++ later) = next
    have hbuf : next.buf = conn.buf ++ packet.payload := by
      rw [← hnext]
      rfl
    rw [List.flatMap_cons, ← List.append_assoc, ← hbuf] at hshort
    have hnot : ¬count ≤ next.buf.length := by
      rw [List.length_append] at hshort
      omega
    rw [List.cons_append] at hinbound
    rw [refill_cons count (fuel + 1) hinbound, hnext, if_neg hnot]
    refine ih ?_ ?_ hshort fuel ?_
    · rw [← hnext]
      rfl
    · rw [← hnext]
      rw [List.length_cons] at hpolls
      change conn.transport.polls + 1 + rest.length = total
      omega
    · rw [List.length_cons] at hfuel
      omega

theorem pollRead_beyond {count : ℕ} {conn : Connection} {symbols : List UInt8}
    (hwithin : Within last later total conn symbols) (hshort : symbols.length < count) :
    total < (pollRead count conn).source.transport.polls := by
  obtain ⟨rest, hstands, hsymbols⟩ := hwithin
  rw [hsymbols] at hshort
  have hbuf : conn.buf.length < count := by
    rw [List.length_append] at hshort
    omega
  rw [pollRead, if_pos hbuf]
  refine refill_beyond rest hstands.inbound hstands.polls hshort ?_
  rw [hstands.inbound, List.length_append]
  omega

end Connection

namespace TokenStream

variable {last : Packet} {later : List Packet} {total : ℕ}

theorem accept_conn_polls (stream : TokenStream) (token : ReceivedToken) (conn : Connection) :
    (stream.accept token conn).conn.transport.polls = conn.transport.polls := by
  unfold accept
  cases conn.context.receive token <;> rfl

/-- Taking up a token leaves the polls of the reads it made. -/
theorem resume_conn_polls (stream : TokenStream) (reader : Reader ReceivedToken) :
    (stream.resume reader).conn.transport.polls =
      (reader.drive Connection.pollRead stream.conn.context
        stream.conn).source.transport.polls := by
  unfold resume
  cases hdrive : reader.drive Connection.pollRead stream.conn.context stream.conn with
  | done token conn => exact accept_conn_polls stream token conn
  | failed fault conn => cases fault <;> rfl
  | pending left conn => rfl

theorem next_polls_le [EncodingRs] (stream : TokenStream) :
    stream.conn.transport.polls ≤ stream.next.conn.transport.polls := by
  unfold next
  split
  · unfold finish
    cases stream.lastError <;> exact Nat.le_refl _
  · rw [resume_conn_polls]
    exact Connection.drive_polls_le _ _ _

/-- A read of more bytes than the response has left goes beyond it. -/
theorem resume_beyond {stream : TokenStream} {symbols : List UInt8} {count : ℕ}
    (next : List UInt8 → Reader ReceivedToken)
    (hwithin : Within last later total stream.conn symbols) (hshort : symbols.length < count) :
    total < (stream.resume (.read count next)).conn.transport.polls := by
  have hpoll := Connection.pollRead_beyond hwithin hshort
  rw [resume_conn_polls, Program.drive]
  cases hanswer : Connection.pollRead count stream.conn with
  | ready bytes conn =>
    rw [hanswer] at hpoll
    exact Nat.lt_of_lt_of_le hpoll (Connection.drive_polls_le _ _ _)
  | pending conn =>
    rw [hanswer] at hpoll
    exact hpoll
  | broken fault conn =>
    rw [hanswer] at hpoll
    exact hpoll

end TokenStream

namespace Yields

variable [EncodingRs] {stream middle final : TokenStream} {tokens first : List ReceivedToken}

theorem polls_le (hyields : Yields stream tokens final) :
    stream.conn.transport.polls ≤ final.conn.transport.polls := by
  induction hyields with
  | nil stream => exact Nat.le_refl _
  | cons hnext hrest ih =>
    rename_i stream next final token tokens
    have hstep := stream.next_polls_le
    rw [hnext] at hstep
    exact Nat.le_trans hstep ih

/-- A stream that has come to its end has passed every point it can stand at. -/
theorem passes (hmiddle : Yields stream first middle) (hyields : Yields stream tokens final)
    (hend : ∀ token next, final.next ≠ .token token next) :
    ∃ more, Yields middle more final := by
  induction hmiddle generalizing tokens with
  | nil stream => exact ⟨tokens, hyields⟩
  | cons hnext hrest ih =>
    cases hyields with
    | nil => exact absurd hnext (hend _ _)
    | cons hother hyields =>
      rw [hnext, NextToken.token.injEq] at hother
      obtain ⟨-, rfl⟩ := hother
      exact ih hyields

/-- A point whose next step polls beyond a bound, and an end within it. -/
theorem polls_of_passed {total : ℕ} (hmiddle : Yields stream first middle)
    (hyields : Yields stream tokens final)
    (hend : ∀ token next, final.next ≠ .token token next)
    (hbeyond : total < middle.next.conn.transport.polls) :
    total < final.next.conn.transport.polls := by
  obtain ⟨more, hmore⟩ := passes hmiddle hyields hend
  cases hmore with
  | nil => exact hbeyond
  | cons hnext hrest =>
    rw [hnext] at hbeyond
    exact Nat.lt_of_lt_of_le hbeyond (Nat.le_trans hrest.polls_le final.next_polls_le)

end Yields

/-- Reading a response comes to its end or to an error without a poll for a
packet behind the response, and leaves what arrives behind it alone. -/
def EndsInside [EncodingRs] (conn : Connection) (response : Response) (later : List Packet) :
    Prop :=
  ∃ tokens stream after, Yields (.new conn) tokens stream ∧
    (stream.next = .finished after ∨ ∃ error, stream.next = .failed error after) ∧
    after.transport.polls ≤ conn.transport.polls + response.packets.length ∧
    ∃ rest, after.transport.inbound = rest ++ later

/-- The bytes of a response end with a token and its last packet is not empty, or
they hold a token that is refused. -/
def Scan.Inside (last : Packet) : Scan → Prop
  | .complete _ => last.payload ≠ []
  | .rejected _ => True
  | .panicked => False
  | .cut _ _ _ => False

def Response.ReadsInside [EncodingRs] (response : Response) (context : Context) : Prop :=
  (scan context response.bytes).2.Inside response.last

/-- A scan that is cut stands at a read that its bytes cannot serve. -/
theorem scanFrom_cut [EncodingRs] (fuel : ℕ) {context reached : Context} {bytes rest : List UInt8}
    {left : Reader ReceivedToken} (hscan : (scanFrom fuel context bytes).2 = .cut left reached rest) :
    ∃ count next, left = .read count next ∧ rest.length < count := by
  induction fuel generalizing context bytes with
  | zero => cases hscan
  | succ fuel ih =>
    rw [scanFrom] at hscan
    split at hscan
    · cases hscan
    · cases hdecode : ReceivedToken.decode.run context bytes with
      | done token more =>
        simp only [hdecode] at hscan
        cases hreceive : context.receive token with
        | ok after =>
          simp only [hreceive] at hscan
          exact ih hscan
        | error error =>
          simp only [hreceive] at hscan
          cases hscan
      | failed fault more =>
        simp only [hdecode] at hscan
        cases fault <;> cases hscan
      | short other more =>
        simp only [hdecode, Scan.cut.injEq] at hscan
        obtain ⟨rfl, -, rfl⟩ := hscan
        exact Program.run_short_shape hdecode

/-- The step behind the tokens of a response that cannot be read inside: it
panics, or it goes beyond the response. -/
theorem next_of_not_inside [EncodingRs] {last : Packet} {later : List Packet} {total : ℕ}
    {stream : TokenStream} {ending : Scan} (hfollows : stream.Follows last later total ending)
    (hnot : ¬ending.Inside last)
    (hcut : ∀ left reached rest, ending = .cut left reached rest →
      ∃ count next, left = .read count next ∧ rest.length < count) :
    (∃ conn, stream.next = .panicked conn) ∨ total < stream.next.conn.transport.polls := by
  cases ending with
  | complete reached =>
    obtain ⟨-, hwithin⟩ := hfollows
    have hempty : last.payload = [] := not_not.mp hnot
    have heof : stream.conn.isEof = false := by
      obtain ⟨rest, hstands, -⟩ := hwithin
      rw [Connection.isEof, hstands.flushed, List.isEmpty_eq_false_iff.mpr (hstands.waits hempty)]
      rfl
    have hread : ∃ next, ReceivedToken.decode = .read 1 next := ⟨_, rfl⟩
    obtain ⟨next, hread⟩ := hread
    refine Or.inr ?_
    rw [TokenStream.next, heof, hread]
    exact TokenStream.resume_beyond next hwithin Nat.zero_lt_one
  | rejected error => exact absurd trivial hnot
  | panicked => exact Or.inl hfollows
  | cut left reached rest =>
    obtain ⟨conn, hnext, -, hwithin⟩ := hfollows
    obtain ⟨count, next, rfl, hshort⟩ := hcut left reached rest rfl
    rw [hnext]
    exact Or.inr (TokenStream.resume_beyond next hwithin hshort)

theorem readsInside_of_endsInside [EncodingRs] {conn : Connection} {response : Response}
    {later : List Packet} (hawaits : conn.Awaits response later)
    (hinside : EndsInside conn response later) : response.ReadsInside conn.context := by
  obtain ⟨final, hyields, -, hfollows⟩ := TokenStream.yields_scanFrom response.bytes.length
    (.new conn) hawaits.within (Nat.le_refl _)
  obtain ⟨tokens, stream, after, hstream, hend, hpolls, -⟩ := hinside
  by_contra hnot
  have hstuck : ∀ token next, stream.next ≠ .token token next := by
    intro token next htoken
    rcases hend with hend | ⟨error, hend⟩ <;> rw [hend] at htoken <;> cases htoken
  have hafter : stream.next.conn = after := by
    rcases hend with hend | ⟨error, hend⟩ <;> rw [hend] <;> rfl
  rcases next_of_not_inside hfollows hnot
      (fun left reached rest hcut => scanFrom_cut _ hcut) with ⟨conn, hpanic⟩ | hbeyond
  · obtain ⟨more, hmore⟩ := hyields.passes hstream hstuck
    cases hmore with
    | nil => rcases hend with hend | ⟨error, hend⟩ <;> rw [hend] at hpanic <;> cases hpanic
    | cons hnext hrest =>
      rw [hpanic] at hnext
      cases hnext
  · have hpast := hyields.polls_of_passed hstream hstuck hbeyond
    rw [hafter] at hpast
    omega

theorem endsInside_of_readsInside [EncodingRs] {conn : Connection} {response : Response}
    {later : List Packet} (hawaits : conn.Awaits response later)
    (hreads : response.ReadsInside conn.context) : EndsInside conn response later := by
  obtain ⟨final, hyields, -, hfollows⟩ := TokenStream.yields_scanFrom response.bytes.length
    (.new conn) hawaits.within (Nat.le_refl _)
  change final.Follows _ _ _ (scan conn.context response.bytes).2 at hfollows
  unfold Response.ReadsInside at hreads
  cases hscan : (scan conn.context response.bytes).2 with
  | complete reached =>
    rw [hscan] at hreads hfollows
    obtain ⟨heof, hinbound, hpolls, -⟩ := TokenStream.isEof_of_nil hfollows.2 hreads
    refine ⟨_, final, final.conn, hyields, ?_, Nat.le_of_eq hpolls, [], hinbound⟩
    rw [TokenStream.next, heof, if_pos rfl, TokenStream.finish]
    cases final.lastError with
    | none => exact Or.inl rfl
    | some error => exact Or.inr ⟨error, rfl⟩
  | rejected error =>
    rw [hscan] at hfollows
    obtain ⟨after, left, hnext, rest, hstands, -⟩ := hfollows
    refine ⟨_, final, after, hyields, Or.inr ⟨error, hnext⟩, ?_, rest, hstands.inbound⟩
    have hpolls := hstands.polls
    omega
  | panicked =>
    rw [hscan] at hreads
    exact hreads.elim
  | cut left reached rest =>
    rw [hscan] at hreads
    exact hreads.elim

/-- Exactly when a response is read within its own packets. -/
theorem endsInside_iff [EncodingRs] {conn : Connection} {response : Response}
    {later : List Packet} (hawaits : conn.Awaits response later) :
    EndsInside conn response later ↔ response.ReadsInside conn.context :=
  ⟨readsInside_of_endsInside hawaits, endsInside_of_readsInside hawaits⟩

theorem endsInside_iff_cutDone :
    @EndsInside .ascii (.new cutDone.packets .silent) cutDone [] := by
  refine (@endsInside_iff .ascii _ _ _ ⟨?_, rfl, rfl⟩).mpr ?_
  · rw [List.append_nil]
    rfl
  · change cutDone.last.payload ≠ []
    decide

/-- A response that ends behind the type byte of a DONE token. -/
def typeByteOnly : Response where
  body := []
  last := responsePacket true [0xFD]
  body_open := Response.nil_open
  last_ends := by decide

theorem typeByteOnly_reads_on :
    ¬∀ (conn : Connection) (response : Response) (later : List Packet),
      conn.Awaits response later → @EndsInside .ascii conn response later := by
  intro hinside
  have hawaits : (Connection.new typeByteOnly.packets .silent).Awaits typeByteOnly [] :=
    ⟨by rw [List.append_nil]; rfl, rfl, rfl⟩
  exact @readsInside_of_endsInside .ascii _ _ _ hawaits (hinside _ _ _ hawaits)

end Tiberius
