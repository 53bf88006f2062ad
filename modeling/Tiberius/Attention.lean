import Tiberius.Boundary
import Tiberius.Exchange

/-!
Cancelling a request. The client stops reading anywhere in a response, writes an
Attention, and reads tokens up to the DONE that acknowledges it. The server may
have ended the response before it sees the Attention, and acknowledges it in a
message of its own or in the message that the client is reading; its packets
arrive at any time. A token stream ends at the end of a message, so what the
client meets depends on where the bytes left of the response end.
-/

namespace Tiberius

open Reading

/-- A call of `cancel_request`. `outgoing` are the packets of the server that have
not arrived; `result` is what the call has returned. -/
structure Cancelling where
  conn : Connection
  outgoing : List Packet
  phase : Phase
  result : Option (Except Error TokenDone)

/-- The writing half of `cancel_request`, in front of its token stream. -/
def Connection.cancelRequest (conn : Connection) (outgoing : List Packet) (fates : List Fate) :
    Cancelling :=
  match conn.sendAttention fates with
  | .returned (.ok ()) after =>
    { conn := after, outgoing := outgoing, phase := .between none, result := none }
  | .returned (.error error) after =>
    { conn := after, outgoing := outgoing, phase := .idle, result := some (.error error) }
  | unfinished =>
    { conn := unfinished.conn, outgoing := outgoing, phase := .idle, result := none }

inductive CancelEvent where
  | deliver
  | next
  deriving DecidableEq, Repr

namespace Cancelling

/-- `flush_done_attention` takes the answer of its token stream. -/
def taken (state : Cancelling) : NextToken → Cancelling
  | .token token stream =>
    match flushDoneAttention.step () token with
    | .inl () => { state with conn := stream.conn, phase := .between stream.lastError }
    | .inr result => { state with conn := stream.conn, phase := .idle, result := some result }
  | .finished conn =>
    { state with conn := conn, phase := .idle, result := some (flushDoneAttention.finish ()) }
  | .failed error conn =>
    { state with conn := conn, phase := .idle, result := some (.error error) }
  | .panicked conn => { state with conn := conn, phase := .idle }
  | .pending reader stream =>
    { state with conn := stream.conn, phase := .inside reader stream.lastError }

theorem taken_attention (state : Cancelling) {token : ReceivedToken} {done : TokenDone}
    (hdone : token.attentionDone = some done) (stream : TokenStream) :
    state.taken (.token token stream) =
      { state with conn := stream.conn, phase := .idle, result := some (.ok done) } := by
  simp only [taken, flushDoneAttention, hdone]

theorem taken_other (state : Cancelling) {token : ReceivedToken}
    (hother : token.attentionDone = none) (stream : TokenStream) :
    state.taken (.token token stream) =
      { state with conn := stream.conn, phase := .between stream.lastError } := by
  simp only [taken, flushDoneAttention, hother]

@[simp] theorem taken_outgoing (state : Cancelling) (answer : NextToken) :
    (state.taken answer).outgoing = state.outgoing := by
  cases answer with
  | token token stream =>
    cases hdone : token.attentionDone with
    | some done => rw [taken_attention state hdone]
    | none => rw [taken_other state hdone]
  | _ => rfl

@[simp] theorem taken_conn (state : Cancelling) (answer : NextToken) :
    (state.taken answer).conn = answer.conn := by
  cases answer with
  | token token stream =>
    cases hdone : token.attentionDone with
    | some done =>
      rw [taken_attention state hdone]
      rfl
    | none =>
      rw [taken_other state hdone]
      rfl
  | _ => rfl

def step [EncodingRs] (state : Cancelling) : CancelEvent → Option Cancelling
  | .deliver =>
    match state.outgoing with
    | [] => none
    | packet :: rest =>
      some { state with conn := state.conn.arrive [packet] .silent, outgoing := rest }
  | .next =>
    match state.phase with
    | .idle => none
    | .between lastError =>
      some (state.taken { conn := state.conn, lastError := lastError : TokenStream }.next)
    | .inside reader lastError =>
      some (state.taken
        ({ conn := state.conn, lastError := lastError : TokenStream }.resume reader))

/-- What a call of `cancel_request` has to leave: if it returned the
acknowledgement nothing in front of `tail` is unread, and on a connection that is
not poisoned the next request reads its own response from the first packet on. -/
structure Sound (tail : List UInt8) (state : Cancelling) : Prop where
  consumed : ∀ done, state.result = some (.ok done) → state.conn.toCome state.outgoing <:+ tail
  clean : ∀ result, state.result = some result → state.conn.poisoned = false →
    ∀ flushed, state.conn.flushStream = .returned (.ok ()) flushed →
      ∀ header payload fates sent,
        flushed.send header (.ok payload) fates = .returned (.ok ()) sent →
          ∀ response, (sent.arrive (state.outgoing ++ response.packets) .silent).Awaits response []

end Cancelling

section

variable [EncodingRs]

/-- A client that stopped reading, and a server that acknowledges its Attention.
`early` is what the client has not taken of a response that ends in front of the
message with the acknowledgement, if there is such a response; `final` is what it
has not taken of that message. -/
structure Interruption where
  conn : Connection
  outgoing : List Packet
  early : Option Response
  final : Response
  before : List UInt8
  attention : List UInt8
  tail : List UInt8
  packets : conn.transport.inbound ++ outgoing =
    (early.elim [] Response.packets) ++ final.packets
  silent : conn.transport.ending = .silent
  range : conn.context.SizeInRange
  bytes : final.bytes = before ++ attention ++ tail
  acknowledges : ∃ token done, ReceivedToken.decode.run conn.context attention = .done token [] ∧
    token.attentionDone = some done

/-- The first DONE of a byte string that acknowledges an Attention, and the bytes
behind it. -/
def attentionFrom : ℕ → Context → List UInt8 → Option (TokenDone × List UInt8)
  | 0, _, _ => none
  | fuel + 1, context, bytes =>
    match ReceivedToken.decode.run context bytes with
    | .done token rest =>
      match context.receive token with
      | .ok context =>
        match token.attentionDone with
        | some done => some (done, rest)
        | none => attentionFrom fuel context rest
      | .error _ => none
    | _ => none

/-- Every token takes at least one byte. -/
def firstAttention (context : Context) (bytes : List UInt8) : Option (TokenDone × List UInt8) :=
  attentionFrom bytes.length context bytes

namespace Interruption

/-- The context in which the tokens behind the Attention are read. -/
def context (interruption : Interruption) : Context := interruption.conn.context.nextPacketId.2

/-- From where the client stopped, no DONE that looks like an acknowledgement
comes before the one of the server. -/
def MeetsNoOther (interruption : Interruption) : Prop :=
  ∀ done left, firstAttention interruption.context
      (interruption.conn.toCome interruption.outgoing) = some (done, left) →
    left <:+ interruption.tail

/-- The acknowledgement is in the message that the client reads, or in the next
one and reading what is left of the response goes past its end. -/
def ReadsOn (interruption : Interruption) : Prop :=
  ∀ response, interruption.early = some response →
    (∀ token ∈ (scan interruption.context (interruption.conn.buf ++ response.bytes)).1,
      token.attentionDone = none) ∧
    ¬(scan interruption.context (interruption.conn.buf ++ response.bytes)).2.Inside response.last

end Interruption

/-- The search for an acknowledgement from a token that a reader has begun. -/
inductive FirstAttention :
    Reader ReceivedToken → Context → List UInt8 → Option (TokenDone × List UInt8) → Prop where
  | found {reader : Reader ReceivedToken} {context after : Context} {bytes rest : List UInt8}
      {token : ReceivedToken} {done : TokenDone}
      (hrun : reader.run context bytes = .done token rest)
      (hreceive : context.receive token = .ok after)
      (hdone : token.attentionDone = some done) :
      FirstAttention reader context bytes (some (done, rest))
  | skipped {reader : Reader ReceivedToken} {context after : Context} {bytes rest : List UInt8}
      {token : ReceivedToken} {answer : Option (TokenDone × List UInt8)}
      (hrun : reader.run context bytes = .done token rest)
      (hreceive : context.receive token = .ok after)
      (hother : token.attentionDone = none)
      (hrest : FirstAttention ReceivedToken.decode after rest answer) :
      FirstAttention reader context bytes answer
  | refused {reader : Reader ReceivedToken} {context : Context} {bytes rest : List UInt8}
      {token : ReceivedToken} {error : Error}
      (hrun : reader.run context bytes = .done token rest)
      (hreceive : context.receive token = .error error) :
      FirstAttention reader context bytes none
  | stopped {reader : Reader ReceivedToken} {context : Context} {bytes : List UInt8}
      (hrun : ∀ token rest, reader.run context bytes ≠ .done token rest) :
      FirstAttention reader context bytes none

theorem attentionFrom_first (fuel : ℕ) (context : Context) (bytes : List UInt8)
    (hfuel : bytes.length ≤ fuel) :
    FirstAttention ReceivedToken.decode context bytes (attentionFrom fuel context bytes) := by
  induction fuel generalizing context bytes with
  | zero =>
    refine .stopped fun token rest hrun => ?_
    have hless := ReceivedToken.decode_shrinks hrun
    omega
  | succ fuel ih =>
    unfold attentionFrom
    cases hrun : ReceivedToken.decode.run context bytes with
    | done token rest =>
      have hless := ReceivedToken.decode_shrinks hrun
      simp only
      cases hreceive : context.receive token with
      | ok after =>
        cases hdone : token.attentionDone with
        | some done => exact .found hrun hreceive hdone
        | none => exact .skipped hrun hreceive hdone (ih after rest (by omega))
      | error error => exact .refused hrun hreceive
    | failed fault rest =>
      refine .stopped fun token other hdone => ?_
      rw [hrun] at hdone
      cases hdone
    | short left rest =>
      refine .stopped fun token other hdone => ?_
      rw [hrun] at hdone
      cases hdone

namespace FirstAttention

variable {reader other : Reader ReceivedToken} {context after : Context}
  {bytes more rest : List UInt8} {token : ReceivedToken} {answer : Option (TokenDone × List UInt8)}

theorem of_run_eq (hfirst : FirstAttention reader context bytes answer)
    (hrun : other.run context more = reader.run context bytes) :
    FirstAttention other context more answer := by
  cases hfirst with
  | found hdone hreceive hattention => exact .found (hrun.trans hdone) hreceive hattention
  | skipped hdone hreceive hother hrest => exact .skipped (hrun.trans hdone) hreceive hother hrest
  | refused hdone hreceive => exact .refused (hrun.trans hdone) hreceive
  | stopped hstop =>
    refine .stopped fun token rest hdone => ?_
    rw [hrun] at hdone
    exact hstop token rest hdone

/-- The answer at a token that is taken: the token itself, or the search goes on. -/
theorem of_token (hfirst : FirstAttention reader context bytes answer)
    (hrun : reader.run context bytes = .done token rest)
    (hreceive : context.receive token = .ok after) :
    (∀ done, token.attentionDone = some done → answer = some (done, rest)) ∧
      (token.attentionDone = none → FirstAttention ReceivedToken.decode after rest answer) := by
  cases hfirst with
  | found hdone hother hattention =>
    rw [hrun, Outcome.done.injEq] at hdone
    obtain ⟨rfl, rfl⟩ := hdone
    refine ⟨fun done hfound => ?_, fun hnone => ?_⟩
    · rw [hattention] at hfound
      cases hfound
      rfl
    · rw [hattention] at hnone
      cases hnone
  | skipped hdone hother hnone hrest =>
    rw [hrun, Outcome.done.injEq] at hdone
    obtain ⟨rfl, rfl⟩ := hdone
    rw [hreceive] at hother
    cases hother
    refine ⟨fun done hfound => ?_, fun _ => hrest⟩
    rw [hnone] at hfound
    cases hfound
  | refused hdone hother =>
    rw [hrun, Outcome.done.injEq] at hdone
    obtain ⟨rfl, rfl⟩ := hdone
    rw [hreceive] at hother
    cases hother
  | stopped hstop => exact absurd hrun (hstop token rest)

end FirstAttention

/-- Reading the bytes left of a response goes past their end, and no token of
them is an acknowledgement. Tokens that use all of the bytes only go past the end
when the last packet is empty. -/
inductive Passes (last : Packet) : Reader ReceivedToken → Context → List UInt8 → Prop where
  | token {reader : Reader ReceivedToken} {context after : Context} {bytes rest : List UInt8}
      {token : ReceivedToken} (hrun : reader.run context bytes = .done token rest)
      (hreceive : context.receive token = .ok after) (hother : token.attentionDone = none)
      (hend : rest = [] → last.payload = [])
      (hrest : Passes last ReceivedToken.decode after rest) : Passes last reader context bytes
  | short {reader left : Reader ReceivedToken} {context : Context} {bytes rest : List UInt8}
      (hrun : reader.run context bytes = .short left rest) : Passes last reader context bytes
  | panics {reader : Reader ReceivedToken} {context : Context} {bytes rest : List UInt8}
      (hrun : reader.run context bytes = .failed .panic rest) : Passes last reader context bytes

namespace Passes

variable {last : Packet} {reader other : Reader ReceivedToken} {context : Context}
  {bytes more rest : List UInt8}

theorem of_run_eq (hpasses : Passes last reader context bytes)
    (hrun : other.run context more = reader.run context bytes) : Passes last other context more := by
  cases hpasses with
  | token hdone hreceive hother hend hrest =>
    exact .token (hrun.trans hdone) hreceive hother hend hrest
  | short hshort => exact .short (hrun.trans hshort)
  | panics hpanic => exact .panics (hrun.trans hpanic)

theorem of_done {token : ReceivedToken} (hpasses : Passes last reader context bytes)
    (hrun : reader.run context bytes = .done token rest) :
    token.attentionDone = none ∧ (rest = [] → last.payload = []) ∧
      ∃ after, context.receive token = .ok after ∧
        Passes last ReceivedToken.decode after rest := by
  cases hpasses with
  | token hdone hreceive hother hend hrest =>
    rw [hrun, Outcome.done.injEq] at hdone
    obtain ⟨rfl, rfl⟩ := hdone
    exact ⟨hother, hend, _, hreceive, hrest⟩
  | short hshort =>
    rw [hrun] at hshort
    cases hshort
  | panics hpanic =>
    rw [hrun] at hpanic
    cases hpanic

theorem not_failed {error : Error} (hpasses : Passes last reader context bytes) :
    reader.run context bytes ≠ .failed (.error error) rest := by
  intro hrun
  cases hpasses with
  | token hdone =>
    rw [hrun] at hdone
    cases hdone
  | short hshort =>
    rw [hrun] at hshort
    cases hshort
  | panics hpanic =>
    rw [hrun] at hpanic
    cases hpanic

end Passes

/-- A scan that does not end inside the response and meets no acknowledgement. -/
theorem passes_of_scanFrom (last : Packet) (fuel : ℕ) {context : Context} {bytes : List UInt8}
    (hfuel : bytes.length ≤ fuel)
    (htokens : ∀ token ∈ (scanFrom fuel context bytes).1, token.attentionDone = none)
    (hnot : ¬(scanFrom fuel context bytes).2.Inside last) :
    (bytes = [] → last.payload = []) ∧ Passes last ReceivedToken.decode context bytes := by
  have hempty : ∀ context, Passes last ReceivedToken.decode context [] := by
    intro context
    have hread : ∃ next, ReceivedToken.decode = .read 1 next := ⟨_, rfl⟩
    obtain ⟨next, hread⟩ := hread
    rw [hread]
    exact .short (Program.run_read_of_lt next context Nat.zero_lt_one)
  induction fuel generalizing context bytes with
  | zero =>
    have hnil : bytes = [] := List.length_eq_zero_iff.mp (Nat.le_zero.mp hfuel)
    subst hnil
    exact ⟨fun _ => not_not.mp hnot, hempty context⟩
  | succ fuel ih =>
    by_cases hnil : bytes = []
    · subst hnil
      exact ⟨fun _ => not_not.mp hnot, hempty context⟩
    · refine ⟨fun h => absurd h hnil, ?_⟩
      rw [scanFrom, List.isEmpty_eq_false_iff.mpr hnil] at htokens hnot
      cases hrun : ReceivedToken.decode.run context bytes with
      | done token rest =>
        have hless := ReceivedToken.decode_shrinks hrun
        simp only [hrun, Bool.false_eq_true, if_false] at htokens hnot
        cases hreceive : context.receive token with
        | ok after =>
          simp only [hreceive] at htokens hnot
          obtain ⟨hend, hrest⟩ := ih (by omega)
            (fun other hother => htokens other (List.mem_cons_of_mem token hother)) hnot
          exact .token hrun hreceive (htokens token List.mem_cons_self) hend hrest
        | error error =>
          simp only [hreceive] at hnot
          exact absurd trivial hnot
      | failed fault rest =>
        cases fault with
        | error error =>
          simp only [hrun, Bool.false_eq_true, if_false] at hnot
          exact absurd trivial hnot
        | panic => exact .panics hrun
      | short left rest => exact .short hrun

end

end Tiberius
