import Tiberius.Exchange

/-!
The transaction descriptor and the packet size of requests over whole runs. A
token stream reads the tokens that the server has sent in their order, so the
context lags behind the server by the tokens that are left. A flush drops these
tokens undecoded: a request carries what the server told last exactly when
nothing told in them is lost.
-/

namespace Tiberius

open Reading

/-- The descriptor and the packet size of a request are those told last. -/
def Sent.Current (sent : Sent) : Prop :=
  attachedDesc sent.payload = sent.ledger.transactionDesc.toList ∧
    sent.packetSize = sent.ledger.packetSize

theorem Ledger.recordAll_cons (ledger : Ledger) (token : ReceivedToken)
    (tokens : List ReceivedToken) :
    ledger.recordAll (token :: tokens) = (ledger.record token).recordAll tokens := rfl

namespace Exchange

def toCome (exchange : Exchange) : List UInt8 :=
  exchange.conn.toCome exchange.outgoing

variable {exchange next : Exchange}

/-- A request on a stuck connection waits, or is rejected. -/
theorem request_stuck (request : ClientRequest) (fates : List Fate) (hstuck : exchange.Stuck) :
    ∃ after, exchange.conn.Reads after ∧
      exchange.request request fates = { exchange with conn := after, phase := .idle } ∧
      (exchange.request request fates).Stuck := by
  unfold Exchange.request
  cases hguard : exchange.conn.ensureNotPoisoned with
  | error error =>
    rw [prepare_rejected request hguard]
    refine ⟨exchange.conn, Connection.Reads.refl _, rfl, ?_⟩
    exact ⟨hstuck.range, rfl, hstuck.answered, hstuck.outgoing, hstuck.inbound, hstuck.silent,
      hstuck.flushed⟩
  | ok value =>
    have hflush : exchange.conn.flushStream =
        .waiting ({ exchange.conn with buf := [] }.polled []) := by
      simp only [Connection.flushStream, hguard, hstuck.flushed, Bool.false_eq_true, if_false,
        Connection.drain, Connection.pollNext, hstuck.inbound, hstuck.silent]
    have hreads : exchange.conn.Reads ({ exchange.conn with buf := [] }.polled []) := rfl
    simp only [Connection.prepare, hflush]
    exact ⟨_, hreads, rfl, hstuck.range, rfl, hstuck.answered, hstuck.outgoing, rfl, hstuck.silent,
      hstuck.flushed⟩

/-- A request that is sent carries what the context holds. -/
theorem sentWith_current {request : ClientRequest} {payload : List UInt8}
    (hitem : request.encode exchange.conn.context.transactionDesc = .ok payload)
    (hledger : exchange.conn.context.ledger = exchange.ledger) :
    (exchange.sentWith payload).Current := by
  unfold ClientRequest.encode at hitem
  cases hbody : request.body with
  | error error =>
    rw [hbody] at hitem
    cases hitem
  | ok body =>
    rw [hbody] at hitem
    cases hitem
    refine ⟨?_, ?_⟩
    · change attachedDesc (encodeAllHeadersTx exchange.conn.context.transactionDesc ++ body) =
        exchange.ledger.transactionDesc.toList
      rw [encodeAllHeadersTx_desc, ← hledger]
      rfl
    · change exchange.conn.context.packetSize = exchange.ledger.packetSize
      rw [← hledger]
      rfl

theorem Flushed.ledger_eq {prepared : Connection} (hflushed : exchange.Flushed prepared) :
    prepared.context.ledger = exchange.conn.context.ledger := by
  rw [hflushed.context]
  rfl

section

variable [EncodingRs]

/-- A reader of the stream stands where the tokens that are left begin; while no
response has been sent it has read nothing. -/
structure ReadsFrom (exchange : Exchange) (reader : Reader ReceivedToken) : Prop where
  sent : exchange.unanswered = false →
    TokensLeft reader exchange.conn.context exchange.toCome exchange.left
  unsent : exchange.unanswered = true → exchange.toCome = [] ∧
    ∀ bytes, reader.run exchange.conn.context bytes =
      ReceivedToken.decode.run exchange.conn.context bytes

/-- The context holds what the server has told but for the tokens left, and every
request was made with what had been told. -/
structure Told (exchange : Exchange) : Prop where
  steady : exchange.Aligned ∨ exchange.Stuck
  ledger : exchange.conn.context.ledger.recordAll exchange.left = exchange.ledger
  quiet : exchange.unanswered = true → exchange.left = []
  reading : ∀ reader, exchange.phase.reader = some reader → exchange.ReadsFrom reader
  requests : ∀ sent ∈ exchange.requests, sent.Current

theorem Told.idle (htold : exchange.Told) (hsteady : next.Aligned ∨ next.Stuck)
    (hphase : next.phase = .idle)
    (hcontext : next.conn.context.ledger = exchange.conn.context.ledger)
    (hleft : next.left = exchange.left) (hledger : next.ledger = exchange.ledger)
    (hunanswered : next.unanswered = exchange.unanswered)
    (hrequests : ∀ sent ∈ next.requests, sent.Current) : next.Told where
  steady := hsteady
  ledger := by rw [hcontext, hleft, hledger, htold.ledger]
  quiet := by rw [hunanswered, hleft]; exact htold.quiet
  reading := by
    intro reader hreader
    rw [hphase] at hreader
    cases hreader
  requests := hrequests

theorem Told.token {reader : Reader ReceivedToken} {token : ReceivedToken} {conn : Connection}
    {context : Context} (lastError : Option Error) (htold : exchange.Told)
    (hreads : exchange.ReadsFrom reader)
    (hrun : ∀ more, reader.run exchange.conn.context (exchange.conn.unread ++ more) =
      .done token (conn.unread ++ more))
    (hreceive : exchange.conn.context.receive token = .ok context)
    (hnext : next = exchange.answered
      (.token token { conn := { conn with context := context }, lastError := lastError }))
    (hsteady : next.Aligned ∨ next.Stuck) : next.Told := by
  cases hunanswered : exchange.unanswered with
  | true =>
    obtain ⟨hnothing, hsame⟩ := hreads.unsent hunanswered
    have hunread := (List.append_eq_nil_iff.mp hnothing).1
    have hnone := hrun []
    rw [hunread, hsame] at hnone
    exact absurd (ReceivedToken.decode_shrinks hnone) (Nat.not_lt_zero _)
  | false =>
    obtain ⟨others, hleft, hothers⟩ := (hreads.sent hunanswered).of_done (hrun _)
    rw [Context.passed_of_ok hreceive] at hothers
    have hnot : next.unanswered ≠ true := by
      rw [hnext, answered_unanswered, hunanswered]
      exact Bool.false_ne_true
    have htail : next.left = others := by
      rw [hnext, answered, hleft]
      rfl
    refine ⟨hsteady, ?_, fun hflag => absurd hflag hnot, ?_, by rw [hnext]; exact htold.requests⟩
    · rw [htail, hnext]
      change context.ledger.recordAll others = exchange.ledger
      rw [← htold.ledger, hleft, Ledger.recordAll_cons, ← Context.passed_ledger,
        Context.passed_of_ok hreceive]
    · intro other hother
      have hdecode : other = ReceivedToken.decode := by
        rw [hnext] at hother
        cases hother
        rfl
      refine ⟨fun _ => ?_, fun hflag => absurd hflag hnot⟩
      rw [htail, hdecode, hnext]
      exact hothers

/-- A stream that waits stands behind the bytes it has read of a token. -/
theorem Told.pending {reader left : Reader ReceivedToken} {conn : Connection}
    (lastError : Option Error) (htold : exchange.Told) (hreads : exchange.ReadsFrom reader)
    (hcontext : conn.context = exchange.conn.context)
    (hsuffix : ∃ used, exchange.conn.unread = used ++ conn.unread)
    (hrun : ∀ more, reader.run exchange.conn.context (exchange.conn.unread ++ more) =
      left.run exchange.conn.context (conn.unread ++ more))
    (hnext : next = exchange.answered (.pending left { conn := conn, lastError := lastError }))
    (hsteady : next.Aligned ∨ next.Stuck) : next.Told := by
  subst hnext
  refine ⟨hsteady, ?_, htold.quiet, ?_, htold.requests⟩
  · change conn.context.ledger.recordAll exchange.left = exchange.ledger
    rw [hcontext, htold.ledger]
  · intro other hother
    cases hother
    refine ⟨fun hflag => ?_, fun hflag => ?_⟩
    · change TokensLeft left conn.context
        (conn.unread ++ exchange.outgoing.flatMap Packet.payload) exchange.left
      rw [hcontext]
      exact (hreads.sent hflag).of_run_eq (hrun _).symm
    · obtain ⟨hnothing, hsame⟩ := hreads.unsent hflag
      obtain ⟨hunread, houtgoing⟩ := List.append_eq_nil_iff.mp hnothing
      obtain ⟨used, hused⟩ := hsuffix
      rw [hunread, eq_comm, List.append_eq_nil_iff] at hused
      refine ⟨?_, fun bytes => ?_⟩
      · change conn.unread ++ exchange.outgoing.flatMap Packet.payload = []
        rw [hused.2, houtgoing]
        rfl
      · have hbytes := hrun bytes
        rw [hunread, hused.2, hsame] at hbytes
        change left.run conn.context bytes = ReceivedToken.decode.run conn.context bytes
        rw [hcontext]
        exact hbytes.symm

theorem Told.resumed {reader : Reader ReceivedToken} {lastError : Option Error}
    {answer : NextToken} (htold : exchange.Told) (hreads : exchange.ReadsFrom reader)
    (hresumed : TokenStream.Resumed { conn := exchange.conn, lastError := lastError } reader answer)
    (hsteady : (exchange.answered answer).Aligned ∨ (exchange.answered answer).Stuck) :
    (exchange.answered answer).Told := by
  cases hresumed with
  | token token conn context lastError hrun hreceive =>
    exact htold.token lastError hreads hrun hreceive rfl hsteady
  | finished conn hconn =>
    exact htold.idle hsteady rfl (congrArg Context.ledger hconn.context_eq) rfl rfl rfl
      htold.requests
  | failed error conn hconn =>
    exact htold.idle hsteady rfl (congrArg Context.ledger hconn.context_eq) rfl rfl rfl
      htold.requests
  | panicked conn hconn =>
    exact htold.idle hsteady rfl (congrArg Context.ledger hconn.context_eq) rfl rfl rfl
      htold.requests
  | pending left conn lastError hconn hsuffix hrun =>
    exact htold.pending lastError hreads hconn.context_eq hsuffix hrun rfl hsteady

theorem step_steady {move : Move} (hsteady : exchange.Aligned ∨ exchange.Stuck)
    (hstep : exchange.step move = some next) : next.Aligned ∨ next.Stuck := by
  rcases hsteady with haligned | hstuck
  · by_cases hmeets : exchange.EncodesOrWaits move
    · exact Or.inl (step_aligned haligned hmeets hstep)
    · cases stepped hstep with
      | request request fates =>
        rcases (requested request fates haligned.range haligned.expects).aligned_or_stuck haligned
          with hnext | ⟨hnext, -⟩
        · exact Or.inl hnext
        · exact Or.inr hnext
      | _ =>
        refine absurd (fun request fates error hmove => ?_) hmeets
        cases hmove
  · refine Or.inr ?_
    cases stepped hstep with
    | request request fates =>
      obtain ⟨-, -, -, hnext⟩ := request_stuck request fates hstuck
      exact hnext
    | respond response hunanswered =>
      rw [hstuck.answered] at hunanswered
      cases hunanswered
    | deliver packet rest houtgoing =>
      rw [hstuck.outgoing] at houtgoing
      cases houtgoing
    | between lastError hphase =>
      rw [hstuck.phase] at hphase
      cases hphase
    | inside reader lastError hphase =>
      rw [hstuck.phase] at hphase
      cases hphase
    | dropStream =>
      exact ⟨hstuck.range, rfl, hstuck.answered, hstuck.outgoing, hstuck.inbound, hstuck.silent,
        hstuck.flushed⟩
    | elapse timeout reader lastError hphase =>
      rw [hstuck.phase] at hphase
      cases hphase

/-- A request made behind a flush loses nothing: the tokens of the last response
that have not been read leave what the context holds as it is. -/
def LosesNothing (exchange : Exchange) (move : Move) : Prop :=
  ∀ request fates, move = .request request fates → exchange.conn.ensureNotPoisoned = .ok () →
    exchange.unanswered = false → exchange.outgoing = [] →
      exchange.conn.context.ledger.recordAll exchange.left = exchange.conn.context.ledger

theorem Told.requested {request : ClientRequest} (htold : exchange.Told)
    (hrequested : Requested exchange request next)
    (hmeets : exchange.conn.ensureNotPoisoned = .ok () → exchange.unanswered = false →
      exchange.outgoing = [] →
        exchange.conn.context.ledger.recordAll exchange.left = exchange.conn.context.ledger)
    (hsteady : next.Aligned ∨ next.Stuck) : next.Told := by
  have hcurrent : ∀ {prepared : Connection} {payload : List UInt8}, exchange.Flushed prepared →
      request.encode exchange.conn.context.transactionDesc = .ok payload →
      ∀ sent ∈ exchange.requests ++ [exchange.sentWith payload], sent.Current := by
    intro prepared payload hflushed hitem sent hsent
    rcases List.mem_append.mp hsent with hold | hnew
    · exact htold.requests sent hold
    · rw [List.mem_singleton.mp hnew]
      refine sentWith_current hitem ?_
      rw [← hmeets hflushed.usable hflushed.answered hflushed.outgoing, htold.ledger]
  cases hrequested with
  | rejected hrejects => exact htold.idle hsteady rfl rfl rfl rfl rfl htold.requests
  | waits after hreads hexpects hmissing =>
    exact htold.idle hsteady rfl (congrArg Context.ledger hreads.context_eq) rfl rfl rfl
      htold.requests
  | unencoded prepared error hflushed hbody =>
    exact htold.idle hsteady rfl hflushed.ledger_eq rfl rfl rfl htold.requests
  | sent prepared after payload hflushed hitem hwrote =>
    have hcontext : after.context.ledger = exchange.conn.context.ledger := by
      rw [hwrote.context, hflushed.ledger_eq]
    refine ⟨hsteady, ?_, fun _ => rfl, ?_, hcurrent hflushed hitem⟩
    · change after.context.ledger = exchange.ledger
      rw [hcontext, ← hmeets hflushed.usable hflushed.answered hflushed.outgoing, htold.ledger]
    · intro reader hreader
      cases hreader
      refine ⟨fun hanswered => absurd hanswered.symm Bool.false_ne_true,
        fun _ => ⟨?_, fun bytes => rfl⟩⟩
      change after.buf ++ after.transport.inbound.flatMap Packet.payload ++
        exchange.outgoing.flatMap Packet.payload = []
      rw [hwrote.buf, hflushed.buf, hwrote.inbound, hflushed.inbound, hflushed.outgoing]
      rfl
  | broken prepared after payload hflushed hitem hpoisoned hcontext =>
    have hledger : after.context.ledger = exchange.conn.context.ledger := by
      rw [hcontext, hflushed.ledger_eq]
    exact htold.idle hsteady rfl hledger rfl rfl rfl (hcurrent hflushed hitem)

/-- The server sends its tokens to a client that has read all it had sent. -/
theorem Told.respond (response : Response) (htold : exchange.Told)
    (hunanswered : exchange.unanswered = true)
    (hsteady : (exchange.respond response).Aligned ∨ (exchange.respond response).Stuck) :
    (exchange.respond response).Told := by
  have hledger : exchange.conn.context.ledger = exchange.ledger := by
    rw [← htold.ledger, htold.quiet hunanswered]
    rfl
  refine ⟨hsteady, ?_, fun hanswered => absurd hanswered Bool.false_ne_true, ?_, htold.requests⟩
  · change exchange.conn.context.ledger.recordAll _ = exchange.ledger.recordAll _
    rw [hledger]
    rfl
  · intro reader hreader
    obtain ⟨hnothing, hsame⟩ := (htold.reading reader hreader).unsent hunanswered
    have hunread := (List.append_eq_nil_iff.mp hnothing).1
    refine ⟨fun _ => ?_, fun hanswered => absurd hanswered Bool.false_ne_true⟩
    change TokensLeft reader exchange.conn.context (exchange.conn.unread ++ response.bytes)
      (tokensSent exchange.conn.context response.bytes)
    rw [hunread, List.nil_append]
    exact (tokensSent_left exchange.conn.context response.bytes).of_run_eq (hsame response.bytes)

theorem Told.deliver {packet : Packet} {rest : List Packet} (htold : exchange.Told)
    (houtgoing : exchange.outgoing = packet :: rest)
    (hnext : next =
      { exchange with conn := exchange.conn.arrive [packet] .silent, outgoing := rest })
    (hsteady : next.Aligned ∨ next.Stuck) : next.Told := by
  have hsame : next.toCome = exchange.toCome := by
    subst hnext
    rw [toCome, toCome, Connection.toCome_arrive, houtgoing]
  have hreading : ∀ reader, exchange.ReadsFrom reader → next.ReadsFrom reader := by
    intro reader hreads
    refine ⟨fun hflag => ?_, fun hflag => ?_⟩
    · rw [hsame]
      subst hnext
      exact hreads.sent hflag
    · rw [hsame]
      subst hnext
      exact hreads.unsent hflag
  subst hnext
  exact ⟨hsteady, htold.ledger, htold.quiet,
    fun reader hreader => hreading reader (htold.reading reader hreader), htold.requests⟩

theorem step_told {move : Move} (htold : exchange.Told) (hmeets : exchange.LosesNothing move)
    (hstep : exchange.step move = some next) : next.Told := by
  have hsteady := step_steady htold.steady hstep
  cases stepped hstep with
  | request request fates =>
    rcases htold.steady with haligned | hstuck
    · exact htold.requested (requested request fates haligned.range haligned.expects)
        (hmeets request fates rfl) hsteady
    · obtain ⟨after, hreads, hnext, -⟩ := request_stuck request fates hstuck
      rw [hnext] at hsteady ⊢
      exact htold.idle hsteady rfl (congrArg Context.ledger hreads.context_eq) rfl rfl rfl
        htold.requests
  | respond response hunanswered => exact htold.respond response hunanswered hsteady
  | deliver packet rest houtgoing => exact htold.deliver houtgoing rfl hsteady
  | between lastError hphase =>
    have hreads := htold.reading ReceivedToken.decode (by rw [hphase]; rfl)
    exact htold.resumed hreads (TokenStream.next_resumed _) hsteady
  | inside reader lastError hphase =>
    have hreads := htold.reading reader (by rw [hphase]; rfl)
    exact htold.resumed hreads (TokenStream.resumed _ reader) hsteady
  | dropStream => exact htold.idle hsteady rfl rfl rfl rfl rfl htold.requests
  | elapse timeout reader lastError hphase =>
    exact htold.idle hsteady rfl rfl rfl rfl rfl htold.requests

theorem start_told {conn : Connection} (hopened : conn.Opened) : (start conn).Told := by
  refine ⟨Or.inl (start_aligned hopened), rfl, fun _ => rfl, ?_, ?_⟩
  · intro reader hreader
    cases hreader
    refine ⟨fun hanswered => absurd hanswered.symm Bool.false_ne_true,
        fun _ => ⟨?_, fun bytes => rfl⟩⟩
    change conn.buf ++ conn.transport.inbound.flatMap Packet.payload ++ [] = []
    rw [hopened.buf, hopened.inbound]
    rfl
  · exact fun sent hsent => absurd hsent List.not_mem_nil

end

end Exchange

/-- Every request of a run that loses nothing at its flushes carries the
transaction descriptor and is cut by the packet size that the server told last. -/
theorem requests_current [EncodingRs] {conn : Connection} {exchange : Exchange}
    (hopened : conn.Opened)
    (hreach : Reached Exchange.step Exchange.LosesNothing (.start conn) exchange) :
    ∀ sent ∈ exchange.requests, sent.Current := by
  have htold : exchange.Told :=
    hreach.keeps Exchange.Told (Exchange.start_told hopened)
      fun _ _ _ htold hmeets hstep => Exchange.step_told htold hmeets hstep
  exact htold.requests

/-- The answer to a batch that begins a transaction: its descriptor, and a DONE. -/
def transactionBegun : Response where
  body := []
  last := responsePacket true
    ([0xE3, 11, 0, 8, 8, 1, 2, 3, 4, 5, 6, 7, 8, 0] ++ (0xFD :: List.replicate 12 0))
  body_open := Response.nil_open
  last_ends := by decide

def beginsTransaction : List Move :=
  [.respond cutDone, .deliver, .deliver, .request (.batch "BEGIN TRAN") [],
    .respond transactionBegun, .deliver]

/-- A transaction is begun, its response is read to the end, and a batch is sent
in it. -/
theorem requests_current_in_transaction :
    ∃ exchange, Reached (@Exchange.step .ascii) Exchange.LosesNothing
        (.start (.new [] .silent)) exchange ∧
      exchange.requests.map (fun sent => attachedDesc sent.payload) =
        [[0, 0, 0, 0, 0, 0, 0, 0], [1, 2, 3, 4, 5, 6, 7, 8]] ∧
      ∀ sent ∈ exchange.requests, sent.Current := by
  have hreach : ∃ exchange, Reached (@Exchange.step .ascii) Exchange.LosesNothing
        (.start (.new [] .silent)) exchange ∧
      exchange.requests.map (fun sent => attachedDesc sent.payload) =
        [[0, 0, 0, 0, 0, 0, 0, 0], [1, 2, 3, 4, 5, 6, 7, 8]] := by
    refine ⟨_, .tail (.tail (.tail (.tail (.tail (.tail (.tail (.tail .refl
      ⟨.respond cutDone, ?_, rfl⟩) ⟨.deliver, ?_, rfl⟩) ⟨.deliver, ?_, rfl⟩)
      ⟨.request (.batch "BEGIN TRAN") [], ?_, rfl⟩) ⟨.respond transactionBegun, ?_, rfl⟩)
      ⟨.deliver, ?_, rfl⟩) ⟨.next, ?_, rfl⟩) ⟨.request (.batch "A") [], ?_, rfl⟩, ?_⟩
    · intro request fates hmove
      cases hmove
    · intro request fates hmove
      cases hmove
    · intro request fates hmove
      cases hmove
    · intro request fates hmove _ _ _
      decide +kernel
    · intro request fates hmove
      cases hmove
    · intro request fates hmove
      cases hmove
    · intro request fates hmove
      cases hmove
    · intro request fates hmove _ _ _
      decide +kernel
    · decide +kernel
  obtain ⟨exchange, hreach, hrequests⟩ := hreach
  exact ⟨exchange, hreach, hrequests, @requests_current .ascii _ _ new_opened hreach⟩

/-- The stream of the batch is dropped with its answer unread, and the next batch
does not carry the transaction that it began. -/
theorem beginsTransaction_lost :
    ¬∀ (conn : Connection) (exchange : Exchange), conn.Opened →
      Reached (@Exchange.step .ascii) (fun _ _ => True) (.start conn) exchange →
        ∀ sent ∈ exchange.requests, sent.Current := by
  intro hcurrent
  have hrun : (perform (@Exchange.step .ascii) (.start (.new [] .silent))
        (beginsTransaction ++ [.dropStream, .request (.batch "A") []])).map
      (fun exchange => exchange.requests.map fun sent =>
        (attachedDesc sent.payload, sent.ledger.transactionDesc.toList)) =
        some [([0, 0, 0, 0, 0, 0, 0, 0], [0, 0, 0, 0, 0, 0, 0, 0]),
          ([0, 0, 0, 0, 0, 0, 0, 0], [1, 2, 3, 4, 5, 6, 7, 8])] := by
    decide +kernel
  obtain ⟨exchange, hperform, hrequests⟩ := Option.map_eq_some_iff.mp hrun
  have hlost : (([0, 0, 0, 0, 0, 0, 0, 0], [1, 2, 3, 4, 5, 6, 7, 8]) : List UInt8 × List UInt8) ∈
      exchange.requests.map fun sent =>
        (attachedDesc sent.payload, sent.ledger.transactionDesc.toList) := by
    rw [hrequests]
    exact List.mem_cons_of_mem _ List.mem_cons_self
  obtain ⟨sent, hsent, hpair⟩ := List.mem_map.mp hlost
  rw [Prod.mk.injEq] at hpair
  have hsame := (hcurrent _ exchange new_opened (Reached.of_perform _ hperform) sent hsent).1
  rw [hpair.1, hpair.2] at hsame
  exact absurd hsame (by decide)

end Tiberius
