import Tiberius.Cancellation

/-!
When cancelling a request leaves the connection behind the acknowledgement. The
call comes to an end inside the response whenever reading it does not go past its
end, and the acknowledgement is then left to the next request; and it takes the
first DONE it meets for the acknowledgement. With the invariant of a call this
says exactly when a cancelled request is sound.
-/

namespace Tiberius

open Reading

namespace Connection

variable {last : Packet} {later : List Packet} {total : ℕ} {conn : Connection}

theorem drain_stands (rest : List Packet) (fuel : ℕ) (hstands : StandsAt last later total rest conn)
    (hne : rest ≠ []) (hfuel : rest.length ≤ fuel) :
    ∃ after, drain fuel conn = .returned (.ok ()) after ∧ conn.Reads after ∧
      after.transport.inbound = later := by
  induction rest generalizing conn fuel with
  | nil => exact absurd rfl hne
  | cons packet rest ih =>
    obtain ⟨fuel, rfl⟩ : ∃ turns, fuel = turns + 1 := ⟨fuel - 1, by
      rw [List.length_cons] at hfuel
      omega⟩
    obtain ⟨hinbound, -, ⟨hlast, -, hends⟩, -, hpolls⟩ := hstands
    have hreads : conn.Reads { conn.polled (rest ++ later) with flushed := packet.isLast } := rfl
    unfold drain pollNext
    simp only [hinbound, List.cons_append]
    by_cases hrest : rest = []
    · subst hrest
      rw [hlast]
      rw [hlast] at hreads
      exact ⟨_, rfl, hreads, rfl⟩
    · have hopen : packet.isLast = false := by
        rw [hlast, List.isEmpty_eq_false_iff]
        exact hrest
      have hnext : StandsAt last later total rest
          { conn.polled (rest ++ later) with flushed := packet.isLast } := by
        refine ⟨rfl, hlast, hends, fun _ => hrest, ?_⟩
        rw [List.length_cons] at hpolls
        change conn.transport.polls + 1 + rest.length = total
        omega
      obtain ⟨after, hdrain, hmore, hafter⟩ := ih fuel hnext hrest (by
        rw [List.length_cons] at hfuel
        omega)
      rw [if_neg (by rw [hopen]; exact Bool.false_ne_true)]
      exact ⟨after, hdrain, hreads.trans hmore, hafter⟩

theorem flushStream_within {symbols : List UInt8} (hwithin : Within last later total conn symbols)
    (husable : conn.ensureNotPoisoned = .ok ()) :
    ∃ flushed, conn.flushStream = .returned (.ok ()) flushed ∧ conn.Reads flushed ∧
      flushed.transport.inbound = later := by
  obtain ⟨rest, hstands, -⟩ := hwithin
  have hreads : conn.Reads { conn with buf := [] } := rfl
  unfold flushStream
  simp only [husable]
  by_cases hrest : rest = []
  · have hflushed : conn.flushed = true := by
      rw [hstands.flushed, hrest]
      rfl
    rw [if_pos hflushed]
    refine ⟨_, rfl, hreads, ?_⟩
    rw [hstands.inbound, hrest]
    rfl
  · have hflushed : conn.flushed = false := by
      rw [hstands.flushed, List.isEmpty_eq_false_iff]
      exact hrest
    have hdropped : StandsAt last later total rest { conn with buf := [] } :=
      hstands.of_eq rfl rfl rfl
    rw [if_neg (by rw [hflushed]; exact Bool.false_ne_true)]
    obtain ⟨after, hdrain, hmore, hafter⟩ := drain_stands rest (conn.transport.inbound.length + 1)
      hdropped hrest (by
        rw [hstands.inbound, List.length_append]
        omega)
    exact ⟨after, hdrain, hreads.trans hmore, hafter⟩

theorem send_nothing (header : PacketHeader) (husable : conn.ensureNotPoisoned = .ok ())
    (hrange : conn.context.SizeInRange) :
    ∃ sent, conn.send header (.ok []) [] = .returned (.ok ()) sent ∧ conn.Wrote sent := by
  obtain ⟨chunk, hchunk, -⟩ := hrange.chunkSize
  have hdone : ∃ sent, conn.send header (.ok []) [] = .returned (.ok ()) sent := by
    simp only [send, husable, hchunk]
    exact ⟨_, rfl⟩
  rcases send_encoded header [] [] husable hrange with hsent | ⟨hfail, -⟩
  · exact hsent
  · obtain ⟨sent, hsend⟩ := hdone
    exact absurd hsend (hfail sent)

end Connection

namespace TokenStream

theorem resume_guard [EncodingRs] (stream : TokenStream) (reader : Reader ReceivedToken) :
    (stream.resume reader).conn.ensureNotPoisoned = stream.conn.ensureNotPoisoned := by
  obtain ⟨after, hreads, hconn⟩ := stream.resume_reads reader
  have hafter : after = _ := hreads
  rcases hconn with hconn | ⟨token, context, -, hconn⟩ <;> rw [hconn, hafter] <;> rfl

theorem next_guard [EncodingRs] (stream : TokenStream) :
    stream.next.conn.ensureNotPoisoned = stream.conn.ensureNotPoisoned := by
  unfold next
  split
  · unfold finish
    cases stream.lastError <;> rfl
  · exact stream.resume_guard _

end TokenStream

namespace Cancelling

variable {state : Cancelling}

theorem Stepped.usable [EncodingRs] {next : Cancelling} (hstepped : Stepped state next)
    (husable : state.conn.ensureNotPoisoned = .ok () ∧ state.conn.context.SizeInRange) :
    next.conn.ensureNotPoisoned = .ok () ∧ next.conn.context.SizeInRange := by
  cases hstepped with
  | deliver packet rest houtgoing => exact husable
  | between lastError hphase =>
    rw [taken_conn, TokenStream.next_guard]
    exact ⟨husable.1, (TokenStream.next_keeps _).range husable.2⟩
  | inside reader lastError hphase =>
    rw [taken_conn, TokenStream.resume_guard]
    exact ⟨husable.1, (TokenStream.resume_keeps _ reader).range husable.2⟩

/-- Every packet on its way can arrive before the next token is read. -/
theorem reached_delivered [EncodingRs] (packets : List Packet) (houtgoing : state.outgoing = packets)
    (hsilent : state.conn.transport.ending = .silent) :
    Reached step (fun _ _ => True) state
      { state with conn := state.conn.arrive packets .silent, outgoing := [] } := by
  induction packets generalizing state with
  | nil =>
    have hsame : { state with conn := state.conn.arrive [] .silent, outgoing := [] } = state := by
      obtain ⟨conn, outgoing, phase, result⟩ := state
      subst houtgoing
      simp only [Connection.arrive, List.append_nil, Cancelling.mk.injEq, and_self, and_true]
      rw [← hsilent]
    rw [hsame]
    exact Relation.ReflTransGen.refl
  | cons packet rest ih =>
    have hstep : state.step .deliver =
        some { state with conn := state.conn.arrive [packet] .silent, outgoing := rest } := by
      rw [step, houtgoing]
    have hrest := @ih { state with conn := state.conn.arrive [packet] .silent, outgoing := rest }
      rfl rfl
    have hsame : (state.conn.arrive [packet] .silent).arrive rest .silent =
        state.conn.arrive (packet :: rest) .silent := by
      simp only [Connection.arrive, List.append_assoc, List.singleton_append]
    simp only [hsame] at hrest
    exact Relation.ReflTransGen.head ⟨.deliver, trivial, hstep⟩ hrest

theorem step_between [EncodingRs] {lastError : Option Error}
    (hphase : state.phase = .between lastError) :
    state.step .next =
      some (state.taken { conn := state.conn, lastError := lastError : TokenStream }.next) := by
  rw [step, hphase]

/-- The call can return with the connection inside a response, in front of the
packets `later`. -/
def ReturnsInside [EncodingRs] (last : Packet) (later : List Packet) (total : ℕ)
    (state : Cancelling) : Prop :=
  ∃ after result left, Reached step (fun _ _ => True) state after ∧ after.result = some result ∧
    after.outgoing = state.outgoing ∧ Within last later total after.conn left

section

variable [EncodingRs] {last : Packet} {later : List Packet} {total : ℕ} {symbols : List UInt8}
  {lastError : Option Error}

theorem returnsInside_of_next {answer : NextToken} {result : Except Error TokenDone}
    (hphase : state.phase = .between lastError)
    (hnext : TokenStream.next { conn := state.conn, lastError := lastError } = answer)
    (hresult : (state.taken answer).result = some result)
    (hwithin : Within last later total answer.conn symbols) :
    ReturnsInside last later total state := by
  refine ⟨state.taken answer, result, symbols, ?_, hresult, taken_outgoing state answer, ?_⟩
  · refine .single ⟨.next, trivial, ?_⟩
    rw [step_between hphase, hnext]
  · rw [taken_conn]
    exact hwithin

theorem returnsInside_of_nil (hphase : state.phase = .between lastError)
    (hwithin : Within last later total state.conn []) (hlast : last.payload ≠ []) :
    ReturnsInside last later total state := by
  obtain ⟨heof, -⟩ := @TokenStream.isEof_of_nil last later total
    { conn := state.conn, lastError := lastError } hwithin hlast
  have hnext : TokenStream.next { conn := state.conn, lastError := lastError } =
      TokenStream.finish { conn := state.conn, lastError := lastError } := by
    rw [TokenStream.next, if_pos heof]
  cases lastError with
  | none => exact returnsInside_of_next hphase hnext rfl hwithin
  | some error => exact returnsInside_of_next hphase hnext rfl hwithin

theorem returnsInside_of_scan_nil (fuel : ℕ) (hphase : state.phase = .between lastError)
    (hwithin : Within last later total state.conn [])
    (hends : (∃ token ∈ (scanFrom fuel state.conn.context []).1, token.attentionDone ≠ none) ∨
      (scanFrom fuel state.conn.context []).2.Inside last) :
    ReturnsInside last later total state := by
  have hscan : scanFrom fuel state.conn.context [] = ([], .complete state.conn.context) := by
    cases fuel <;> rfl
  rw [hscan] at hends
  rcases hends with ⟨token, htoken, -⟩ | hinside
  · cases htoken
  · exact returnsInside_of_nil hphase hwithin hinside

theorem returnsInside_of_token {token : ReceivedToken} {stream : TokenStream}
    (hphase : state.phase = .between lastError)
    (hnext : TokenStream.next { conn := state.conn, lastError := lastError } =
      .token token stream)
    (hinside : ReturnsInside last later total (state.taken (.token token stream))) :
    ReturnsInside last later total state := by
  obtain ⟨after, result, left, hreach, hresult, houtgoing, hleft⟩ := hinside
  refine ⟨after, result, left, ?_, hresult, ?_, hleft⟩
  · refine .head ⟨.next, trivial, ?_⟩ hreach
    rw [step_between hphase, hnext]
  · rw [houtgoing, taken_outgoing]

/-- A call that reads a response whose bytes hold what looks like an
acknowledgement, or whose reading does not go past its end, returns inside it. -/
theorem returns_inside (fuel : ℕ) (hphase : state.phase = .between lastError)
    (hwithin : Within last later total state.conn symbols) (hfuel : symbols.length ≤ fuel)
    (hends : (∃ token ∈ (scanFrom fuel state.conn.context symbols).1,
      token.attentionDone ≠ none) ∨
        (scanFrom fuel state.conn.context symbols).2.Inside last) :
    ReturnsInside last later total state := by
  induction fuel generalizing state symbols lastError with
  | zero =>
    have hnil : symbols = [] := List.length_eq_zero_iff.mp (Nat.le_zero.mp hfuel)
    subst hnil
    exact returnsInside_of_scan_nil 0 hphase hwithin hends
  | succ fuel ih =>
    by_cases hne : symbols = []
    · subst hne
      exact returnsInside_of_scan_nil (fuel + 1) hphase hwithin hends
    · rw [scanFrom, List.isEmpty_eq_false_iff.mpr hne] at hends
      simp only [Bool.false_eq_true, if_false] at hends
      cases hdecode : ReceivedToken.decode.run state.conn.context symbols with
      | done token rest =>
        have hless := ReceivedToken.decode_shrinks hdecode
        simp only [hdecode] at hends
        cases hreceive : state.conn.context.receive token with
        | ok context =>
          simp only [hreceive] at hends
          obtain ⟨stream, hnext, hcontext, -, hrest⟩ := @TokenStream.next_token last later total
            { conn := state.conn, lastError := lastError } symbols _ _ _ _ hwithin hne hdecode
            hreceive
          cases hdone : token.attentionDone with
          | some done =>
            have hresult : (state.taken (.token token stream)).result = some (.ok done) := by
              rw [taken_attention state hdone]
            exact returnsInside_of_next hphase hnext hresult hrest
          | none =>
            have htaken := taken_other state hdone stream
            apply returnsInside_of_token hphase hnext
            refine @ih (state.taken (.token token stream)) rest stream.lastError ?_ ?_ ?_ ?_
            · rw [htaken]
            · rw [htaken]
              exact hrest
            · omega
            · rw [htaken]
              simp only [hcontext]
              rcases hends with ⟨other, hother, hattention⟩ | hinside
              · rcases List.mem_cons.mp hother with rfl | hmem
                · exact absurd hdone hattention
                · exact Or.inl ⟨other, hmem, hattention⟩
              · exact Or.inr hinside
        | error error =>
          obtain ⟨conn, left, hnext, hleft⟩ := @TokenStream.follows_of_refused last later total
            { conn := state.conn, lastError := lastError } symbols _ _ _ _ hwithin hne hdecode
            hreceive
          exact returnsInside_of_next hphase hnext rfl hleft
      | failed fault rest =>
        have hfollows := @TokenStream.follows_of_failed last later total
          { conn := state.conn, lastError := lastError } symbols _ _ _ hwithin hne hdecode
        cases fault with
        | error error =>
          obtain ⟨conn, left, hnext, hleft⟩ := hfollows
          exact returnsInside_of_next hphase hnext rfl hleft
        | panic =>
          simp only [hdecode] at hends
          rcases hends with ⟨token, htoken, -⟩ | hinside
          · cases htoken
          · exact hinside.elim
      | short left rest =>
        simp only [hdecode] at hends
        rcases hends with ⟨token, htoken, -⟩ | hinside
        · cases htoken
        · exact hinside.elim

theorem Tracks.next_token {final : Response} {answer : Option (TokenDone × List UInt8)}
    {token : ReceivedToken} {context : Context} {rest : List UInt8}
    (htracks : Tracks last final answer state) (hphase : state.phase = .between lastError)
    (hdecode : ReceivedToken.decode.run state.conn.context state.conn.unread = .done token rest)
    (hreceive : state.conn.context.receive token = .ok context) :
    ∃ stream, TokenStream.next { conn := state.conn, lastError := lastError } =
        .token token stream ∧
      stream.conn.unread = rest ∧ stream.conn.context = context := by
  have heof : state.conn.isEof ≠ true := by
    intro heof
    have hexpects := htracks.boundary lastError hphase heof
    rw [Connection.isEof, Bool.and_eq_true, List.isEmpty_iff] at heof
    obtain ⟨-, hinbound, -⟩ := hexpects.nothing_missing heof.1
    have hunread : state.conn.unread = [] := by
      rw [Connection.unread, heof.2, hinbound]
      rfl
    rw [hunread] at hdecode
    exact absurd (ReceivedToken.decode_shrinks hdecode) (Nat.not_lt_zero _)
  have hreads := Connection.drive_reads ReceivedToken.decode state.conn.context state.conn
  obtain ⟨conn, hdrive, hunread⟩ := Connection.pollRead_serves_unread.drive_done rfl hdecode
  rw [hdrive] at hreads
  have hcontext : conn.context = state.conn.context := hreads.context_eq
  refine ⟨{ conn := { conn with context := context }, lastError := rememberError lastError token },
    ?_, hunread, rfl⟩
  rw [TokenStream.next, if_neg heof]
  simp only [TokenStream.resume, hdrive, TokenStream.accept, hcontext, hreceive]

/-- A call that has received all packets returns the first DONE that looks like an
acknowledgement. -/
theorem Tracks.finds {final : Response} {answer : Option (TokenDone × List UInt8)}
    {reader : Reader ReceivedToken} {context : Context} {bytes : List UInt8}
    (hfirst : FirstAttention reader context bytes answer) (hreader : reader = ReceivedToken.decode)
    (htracks : Tracks last final answer state) (hphase : state.phase = .between lastError)
    (houtgoing : state.outgoing = []) (hcontext : state.conn.context = context)
    (hunread : state.conn.unread = bytes) {done : TokenDone} {left : List UInt8}
    (hanswer : answer = some (done, left)) :
    ∃ after, Reached step (fun _ _ => True) state after ∧ after.result = some (.ok done) ∧
      after.conn.toCome after.outgoing = left := by
  induction hfirst generalizing state lastError with
  | found hrun hreceive hdone =>
    subst hreader hcontext hunread
    cases hanswer
    obtain ⟨stream, hnext, hrest, -⟩ := htracks.next_token hphase hrun hreceive
    refine ⟨_, .single ⟨.next, trivial, step_between hphase⟩, ?_, ?_⟩
    · rw [hnext, taken_attention state hdone]
    · rw [hnext, taken_conn, taken_outgoing, houtgoing, Connection.toCome, List.flatMap_nil,
        List.append_nil]
      exact hrest
  | skipped hrun hreceive hother hrest ih =>
    subst hreader hcontext hunread
    obtain ⟨stream, hnext, hunread, hcontext⟩ := htracks.next_token hphase hrun hreceive
    have htaken := taken_other state hother stream
    have hstep := step_between hphase
    rw [hnext] at hstep
    have hafter := (stepped hstep).tracks htracks
    have hbetween := congrArg Cancelling.phase htaken
    obtain ⟨after, hreach, hresult, hleft⟩ := ih rfl hafter hbetween
      (by rw [taken_outgoing, houtgoing]) (by rw [taken_conn]; exact hcontext)
      (by rw [taken_conn]; exact hunread) hanswer
    exact ⟨after, .head ⟨.next, trivial, hstep⟩ hreach, hresult, hleft⟩
  | refused hrun hreceive => cases hanswer
  | stopped hrun => cases hanswer

end

end Cancelling

namespace Interruption

variable [EncodingRs] {interruption : Interruption}

/-- Every run of the call is sound. -/
def CancelsSoundly (interruption : Interruption) : Prop :=
  ∀ fates state, Reached Cancelling.step (fun _ _ => True)
    (interruption.conn.cancelRequest interruption.outgoing fates) state →
      state.Sound interruption.tail

/-- The call with all of its packets received, in front of its first token. -/
theorem reached_start (husable : interruption.conn.ensureNotPoisoned = .ok ()) :
    ∃ after, interruption.Sent after ∧
      Reached Cancelling.step (fun _ _ => True)
        (interruption.conn.cancelRequest interruption.outgoing [])
        { conn := after.arrive interruption.outgoing .silent
          outgoing := []
          phase := .between none
          result := none } := by
  have hstart := interruption.conn.cancelRequest_cases interruption.outgoing []
  rcases hstart with ⟨-, after, hsent, hstart⟩ | hdead
  · refine ⟨after, hsent, ?_⟩
    rw [hstart]
    exact @Cancelling.reached_delivered
      { conn := after, outgoing := interruption.outgoing, phase := .between none, result := none } _
      interruption.outgoing rfl (hsent.ending.trans interruption.silent)
  · have hcompletes : ∃ after, interruption.conn.sendAttention [] = .returned (.ok ()) after := by
      simp only [Connection.sendAttention, husable]
      exact ⟨_, rfl⟩
    obtain ⟨after, hsend⟩ := hcompletes
    have hphase := hdead.phase
    simp only [Connection.cancelRequest, hsend] at hphase
    cases hphase

theorem Sent.usable {after : Connection} (hsent : interruption.Sent after)
    (husable : interruption.conn.ensureNotPoisoned = .ok ()) :
    after.ensureNotPoisoned = .ok () ∧ after.context.SizeInRange := by
  obtain ⟨hpoisoned, hdesync⟩ := Connection.not_poisoned_of_guard husable
  refine ⟨Connection.guard_of_not_poisoned ?_ ?_, ?_⟩
  · rw [hsent.poisoned]
    exact hpoisoned
  · rw [hsent.desync]
    exact hdesync
  · rw [hsent.context]
    exact interruption.range

theorem Sent.within {after : Connection} {response : Response} (hsent : interruption.Sent after)
    (hearly : interruption.early = some response) :
    Within response.last interruption.final.packets
      (after.transport.polls + response.packets.length)
      (after.arrive interruption.outgoing .silent) (interruption.conn.buf ++ response.bytes) := by
  have hprecedes := hsent.precedes hearly
  refine ⟨response.packets, ⟨hprecedes.packets, hprecedes.flushed, hprecedes.ends,
    fun _ => response.packets_ne_nil, rfl⟩, ?_⟩
  change _ = after.buf ++ response.bytes
  rw [hsent.buf]

/-- A call that returns inside an earlier response leaves the last message to the
next request. -/
theorem readsOn_of_sound (husable : interruption.conn.ensureNotPoisoned = .ok ())
    (hsound : interruption.CancelsSoundly) : interruption.ReadsOn := by
  intro response hearly
  by_contra hnot
  obtain ⟨after, hsent, hreach⟩ := reached_start husable
  have hcontext : after.context = interruption.context := hsent.context
  have hends : (∃ token ∈ (scanFrom (interruption.conn.buf ++ response.bytes).length
        after.context (interruption.conn.buf ++ response.bytes)).1, token.attentionDone ≠ none) ∨
      (scanFrom (interruption.conn.buf ++ response.bytes).length after.context
        (interruption.conn.buf ++ response.bytes)).2.Inside response.last := by
    rw [hcontext]
    by_contra hneither
    rw [not_or] at hneither
    refine hnot ⟨fun token htoken => ?_, hneither.2⟩
    by_contra hattention
    exact hneither.1 ⟨token, htoken, hattention⟩
  have hreturns : Cancelling.ReturnsInside response.last interruption.final.packets
      (after.transport.polls + response.packets.length)
      { conn := after.arrive interruption.outgoing .silent
        outgoing := []
        phase := .between none
        result := none } :=
    Cancelling.returns_inside _ rfl (hsent.within hearly) (Nat.le_refl _) hends
  obtain ⟨last, result, left, hmore, hresult, houtgoing, hleft⟩ := hreturns
  have hstate := Cancelling.reached_keeps hmore
    (fun state => state.conn.ensureNotPoisoned = .ok () ∧ state.conn.context.SizeInRange)
    (hsent.usable husable) fun _ _ hstepped husable => hstepped.usable husable
  obtain ⟨flushed, hflush, hreads, hinbound⟩ := Connection.flushStream_within hleft hstate.1
  have hguard : flushed.ensureNotPoisoned = .ok () := by
    rw [show flushed = _ from hreads]
    exact hstate.1
  have hrange : flushed.context.SizeInRange := by
    rw [hreads.context_eq]
    exact hstate.2
  obtain ⟨sent, hsend, hwrote⟩ := Connection.send_nothing (.batch 0) hguard hrange
  have hawaits := (hsound [] last (hreach.trans hmore)).clean result hresult
    (Connection.not_poisoned_of_guard hstate.1).1 flushed hflush _ _ _ sent hsend response
  have hpackets : sent.transport.inbound ++ (last.outgoing ++ response.packets) =
      response.packets ++ [] := hawaits.inbound
  rw [hwrote.inbound, hinbound, houtgoing] at hpackets
  have hlength := congrArg List.length hpackets
  simp only [List.length_append, List.length_nil] at hlength
  exact interruption.final.packets_ne_nil (List.length_eq_zero_iff.mp (by omega))

/-- A call takes the first DONE that looks like an acknowledgement. -/
theorem meetsNoOther_of_sound (husable : interruption.conn.ensureNotPoisoned = .ok ())
    (hreads : interruption.ReadsOn) (hsound : interruption.CancelsSoundly) :
    interruption.MeetsNoOther := by
  intro done left hfirst
  obtain ⟨after, hsent, hreach⟩ := reached_start husable
  have hsame : (after.arrive interruption.outgoing .silent).unread =
      interruption.conn.toCome interruption.outgoing := by
    rw [← hsent.toCome_eq]
    change after.buf ++ (after.transport.inbound ++ interruption.outgoing).flatMap Packet.payload = _
    rw [Connection.toCome, Connection.unread, List.flatMap_append, List.append_assoc]
  have hdelivered := @Cancelling.reached_delivered
    { conn := after, outgoing := interruption.outgoing, phase := .between none, result := none } _
    interruption.outgoing rfl (hsent.ending.trans interruption.silent)
  have htracks := Cancelling.reached_keeps hdelivered _ (hsent.tracks hreads)
    fun _ _ hstepped htracks => hstepped.tracks htracks
  obtain ⟨last, hmore, hresult, hleft⟩ := Cancelling.Tracks.finds
    (attentionFrom_first _ interruption.context _ (Nat.le_refl _)) rfl htracks rfl rfl hsent.context
    hsame hfirst
  have hconsumed := (hsound [] last (hreach.trans hmore)).consumed done hresult
  rw [hleft] at hconsumed
  exact hconsumed

end Interruption

/-- Cancelling a request is sound exactly when the call is rejected, or it meets
no other DONE that looks like the acknowledgement and reading what is left of an
earlier response goes past its end. -/
theorem cancel_sound_iff [EncodingRs] (interruption : Interruption) :
    interruption.CancelsSoundly ↔
      interruption.conn.ensureNotPoisoned ≠ .ok () ∨
        interruption.MeetsNoOther ∧ interruption.ReadsOn := by
  constructor
  · intro hsound
    by_cases husable : interruption.conn.ensureNotPoisoned = .ok ()
    · have hreads := Interruption.readsOn_of_sound husable hsound
      exact Or.inr ⟨Interruption.meetsNoOther_of_sound husable hreads hsound, hreads⟩
    · exact Or.inl husable
  · rintro (hrejects | ⟨hmeets, hreads⟩) fates state hreach
    · exact cancel_sound_of_rejected hrejects fates hreach
    · exact cancel_sound_of_readsOn hmeets hreads fates hreach

/-- One DONE with the given status, in one packet. -/
def oneDone (status : UInt8) : Response where
  body := []
  last := responsePacket true [0xFD, status, 0, 0, 0, 0, 0, 0, 0, 0, 0, 0, 0]
  body_open := Response.nil_open
  last_ends := rfl

/-- The server ends its response before it sees the Attention. The client has not
read the response yet, and the acknowledgement is a message of its own. -/
def crossedAttention : @Interruption .ascii :=
  @Interruption.mk .ascii (.new (oneDone 0).packets .silent) (oneDone 0x20).packets
    (some (oneDone 0)) (oneDone 0x20) [] (oneDone 0x20).bytes [] rfl rfl
    Context.new_sizeInRange
    (List.append_nil _).symm ⟨_, _, rfl, rfl⟩

/-- The token stream ends with the response, and the acknowledgement is left to
the next request. -/
theorem crossedAttention_left : ¬@Interruption.CancelsSoundly .ascii crossedAttention := by
  intro hsound
  have hreads := @Interruption.readsOn_of_sound .ascii crossedAttention rfl hsound
  have hscan : (@scan .ascii (@Interruption.context .ascii crossedAttention)
      ([] ++ (oneDone 0).bytes)).2 = .complete _ := rfl
  have hnot := (hreads (oneDone 0) rfl).2
  change ¬(@scan .ascii _ ([] ++ (oneDone 0).bytes)).2.Inside _ at hnot
  rw [hscan] at hnot
  exact hnot (List.cons_ne_nil _ _)

end Tiberius
