import Tiberius.Crossing

/-!
When cancelling a request leaves a clean connection. A call that returns in
front of the last message leaves that message to the next request; once a packet
of it has been taken, flushing the stream drops what is left of it. When reading
the response goes past its end, the call only ever returns in the last message.
-/

namespace Tiberius

open Reading

section

variable [EncodingRs]

namespace Cancelling

/-- A call of `cancel_request` on its way: it searches for the acknowledgement in
the bytes to come, and it only ever returns in the last message. -/
structure Tracks (last : Packet) (final : Response) (answer : Option (TokenDone × List UInt8))
    (state : Cancelling) : Prop where
  range : state.conn.context.SizeInRange
  search : ∀ reader, state.phase.reader = some reader →
    FirstAttention reader state.conn.context (state.conn.toCome state.outgoing) answer
  place : ∀ reader, state.phase.reader = some reader →
    Placed last final state.outgoing reader state.conn
  boundary : ∀ lastError, state.phase = .between lastError → state.conn.isEof = true →
    Expects false state.outgoing state.conn
  running : state.phase ≠ .idle → state.result = none
  found : ∀ done, state.result = some (.ok done) →
    answer = some (done, state.conn.toCome state.outgoing)
  returned : ∀ result, state.result = some result → Expects false state.outgoing state.conn

variable {last : Packet} {final : Response} {answer : Option (TokenDone × List UInt8)}
  {state : Cancelling}

/-- A call that has ended in the last message. -/
theorem Tracks.ended {conn : Connection} {result : Option (Except Error TokenDone)}
    (hrange : conn.context.SizeInRange)
    (hfound : ∀ done, result = some (.ok done) →
      answer = some (done, conn.toCome state.outgoing))
    (hexpects : ∀ value, result = some value → Expects false state.outgoing conn) :
    Tracks last final answer { state with conn := conn, phase := .idle, result := result } where
  range := hrange
  search := by
    intro reader hreader
    cases hreader
  place := by
    intro reader hreader
    cases hreader
  boundary := by
    intro lastError hphase
    cases hphase
  running := fun hphase => absurd rfl hphase
  found := hfound
  returned := hexpects

theorem Tracks.failed {conn : Connection} {error : Error} (hrange : conn.context.SizeInRange)
    (hexpects : Expects false state.outgoing conn) :
    Tracks last final answer
      { state with conn := conn, phase := .idle, result := some (.error error) } := by
  refine Tracks.ended hrange (fun done hdone => ?_) fun _ _ => hexpects
  cases hdone

/-- A call that reads on. -/
theorem Tracks.reading {conn : Connection} {phase : Phase} (hresult : state.result = none)
    (hrange : conn.context.SizeInRange)
    (hsearch : ∀ reader, phase.reader = some reader →
      FirstAttention reader conn.context (conn.toCome state.outgoing) answer)
    (hplace : ∀ reader, phase.reader = some reader →
      Placed last final state.outgoing reader conn)
    (hboundary : ∀ lastError, phase = .between lastError → conn.isEof = true →
      Expects false state.outgoing conn) :
    Tracks last final answer { state with conn := conn, phase := phase } := by
  have hnone : ∀ value, state.result ≠ some value := by
    intro value hvalue
    rw [hresult] at hvalue
    cases hvalue
  exact ⟨hrange, hsearch, hplace, hboundary, fun _ => hresult,
    fun done hdone => absurd hdone (hnone (.ok done)),
    fun value hvalue => absurd hvalue (hnone value)⟩

/-- A call that waits for a token has not returned. -/
theorem Tracks.result_none {reader : Reader ReceivedToken} (htracks : Tracks last final answer state)
    (hreader : state.phase.reader = some reader) : state.result = none := by
  refine htracks.running fun hidle => ?_
  rw [hidle] at hreader
  cases hreader

theorem Tracks.token {reader : Reader ReceivedToken} {token : ReceivedToken} {conn : Connection}
    {context : Context} (lastError : Option Error) (htracks : Tracks last final answer state)
    (hreader : state.phase.reader = some reader)
    (hdrive : reader.drive Connection.pollRead state.conn.context state.conn = .done token conn)
    (hreceive : state.conn.context.receive token = .ok context) :
    Tracks last final answer (state.taken
      (.token token { conn := { conn with context := context }, lastError := lastError })) := by
  have hrun := Connection.pollRead_shows.run_of_drive_done hdrive
    (state.outgoing.flatMap Packet.payload)
  obtain ⟨hfound, hgoes⟩ := (htracks.search reader hreader).of_token hrun hreceive
  have hrange : context.SizeInRange := Context.receive_sizeInRange htracks.range hreceive
  have hresult := htracks.result_none hreader
  have hplace := (htracks.place reader hreader).done hdrive
  cases hdone : token.attentionDone with
  | some done =>
    rw [taken_attention state hdone]
    have hexpects : Expects false state.outgoing conn := by
      rcases hplace with hexpects | ⟨rest, -, -, hother, -⟩
      · exact hexpects
      · rw [hdone] at hother
        cases hother
    refine Tracks.ended hrange (fun other hother => ?_) fun _ _ => hexpects.of_eq rfl rfl rfl
    cases hother
    exact hfound done hdone
  | none =>
    rw [taken_other state hdone]
    refine Tracks.reading hresult hrange ?_ ?_ ?_
    · intro other hother
      cases hother
      exact hgoes hdone
    · intro other hother
      cases hother
      rcases hplace with hexpects | ⟨rest, hprecedes, hopen, -, -, after, hafter, hpasses⟩
      · exact Or.inl (hexpects.of_eq rfl rfl rfl)
      · rw [hreceive] at hafter
        cases hafter
        exact Or.inr ⟨rest, hprecedes.of_eq rfl rfl rfl, hpasses, Or.inl hopen⟩
    · intro _ _ heof
      rcases hplace with hexpects | ⟨rest, hprecedes, hopen, -, hend, -⟩
      · exact hexpects.of_eq rfl rfl rfl
      · obtain ⟨hflushed, hbuf⟩ : conn.flushed = true ∧ conn.buf = [] := by
          change (conn.flushed && conn.buf.isEmpty) = true at heof
          rw [Bool.and_eq_true, List.isEmpty_iff] at heof
          exact heof
        have hrest : rest = [] := by
          rw [hprecedes.flushed, List.isEmpty_iff] at hflushed
          exact hflushed
        exact absurd hrest (hopen (hend (by rw [hbuf, hrest]; rfl)))

theorem Tracks.resume {reader : Reader ReceivedToken} (lastError : Option Error)
    (htracks : Tracks last final answer state) (hreader : state.phase.reader = some reader) :
    Tracks last final answer (state.taken
      ({ conn := state.conn, lastError := lastError : TokenStream }.resume reader)) := by
  have hplaced := htracks.place reader hreader
  have hreads := Connection.drive_reads reader state.conn.context state.conn
  have hresult := htracks.result_none hreader
  cases hdrive : reader.drive Connection.pollRead state.conn.context state.conn with
  | done token conn =>
    rw [hdrive] at hreads
    have hcontext : conn.context = state.conn.context := hreads.context_eq
    simp only [TokenStream.resume, hdrive, TokenStream.accept, hcontext]
    cases hreceive : state.conn.context.receive token with
    | ok context => exact htracks.token _ hreader hdrive hreceive
    | error error =>
      refine Tracks.failed (by rw [hcontext]; exact htracks.range) ?_
      rcases hplaced.done hdrive with hexpects | ⟨rest, -, -, -, -, context, hok, -⟩
      · exact hexpects
      · rw [hreceive] at hok
        cases hok
  | failed fault conn =>
    rw [hdrive] at hreads
    have hrange : conn.context.SizeInRange := by
      rw [show conn.context = _ from hreads.context_eq]
      exact htracks.range
    simp only [TokenStream.resume, hdrive]
    cases fault with
    | error error => exact Tracks.failed hrange (hplaced.failed hdrive)
    | panic =>
      refine Tracks.ended hrange (fun done hdone => ?_) fun value hvalue => ?_
      · rw [hresult] at hdone
        cases hdone
      · rw [hresult] at hvalue
        cases hvalue
  | pending left conn =>
    rw [hdrive] at hreads
    have hcontext : conn.context = state.conn.context := hreads.context_eq
    obtain ⟨-, hrun⟩ := Connection.pollRead_shows.run_of_drive_pending hdrive
    simp only [TokenStream.resume, hdrive]
    refine Tracks.reading hresult ?_ ?_ ?_ ?_
    · rw [hcontext]
      exact htracks.range
    · intro other hother
      cases hother
      rw [hcontext]
      exact (htracks.search reader hreader).of_run_eq (hrun _).symm
    · intro other hother
      cases hother
      exact hplaced.pending hdrive
    · intro lastError hphase
      cases hphase

theorem Tracks.next {lastError : Option Error} (htracks : Tracks last final answer state)
    (hphase : state.phase = .between lastError) :
    Tracks last final answer
      (state.taken { conn := state.conn, lastError := lastError : TokenStream }.next) := by
  unfold TokenStream.next
  by_cases heof : state.conn.isEof = true
  · have hexpects := htracks.boundary lastError hphase heof
    rw [if_pos heof]
    cases lastError with
    | none => exact Tracks.failed htracks.range hexpects
    | some error => exact Tracks.failed htracks.range hexpects
  · rw [if_neg heof]
    exact htracks.resume lastError (by rw [hphase]; rfl)

theorem Tracks.deliver {packet : Packet} {others : List Packet}
    (htracks : Tracks last final answer state) (houtgoing : state.outgoing = packet :: others) :
    Tracks last final answer
      { state with conn := state.conn.arrive [packet] .silent, outgoing := others } where
  range := htracks.range
  search := by
    intro reader hreader
    have hsearch := htracks.search reader hreader
    rw [houtgoing, ← Connection.toCome_arrive state.conn packet others .silent] at hsearch
    exact hsearch
  place := by
    intro reader hreader
    have hplace := htracks.place reader hreader
    rw [houtgoing] at hplace
    exact hplace.deliver
  boundary := by
    intro lastError hphase heof
    have hexpects := htracks.boundary lastError hphase heof
    rw [houtgoing] at hexpects
    exact hexpects.deliver
  running := htracks.running
  found := by
    intro done hdone
    have hfound := htracks.found done hdone
    rw [houtgoing, ← Connection.toCome_arrive state.conn packet others .silent] at hfound
    exact hfound
  returned := by
    intro result hresult
    have hexpects := htracks.returned result hresult
    rw [houtgoing] at hexpects
    exact hexpects.deliver

/-- Everything a step can do. -/
inductive Stepped (state : Cancelling) : Cancelling → Prop where
  | deliver (packet : Packet) (rest : List Packet) (houtgoing : state.outgoing = packet :: rest) :
      Stepped state { state with conn := state.conn.arrive [packet] .silent, outgoing := rest }
  | between (lastError : Option Error) (hphase : state.phase = .between lastError) :
      Stepped state (state.taken { conn := state.conn, lastError := lastError : TokenStream }.next)
  | inside (reader : Reader ReceivedToken) (lastError : Option Error)
      (hphase : state.phase = .inside reader lastError) :
      Stepped state (state.taken
        ({ conn := state.conn, lastError := lastError : TokenStream }.resume reader))

theorem stepped {event : CancelEvent} {next : Cancelling} (hstep : state.step event = some next) :
    Stepped state next := by
  cases event with
  | deliver =>
    rw [step] at hstep
    cases houtgoing : state.outgoing with
    | nil =>
      rw [houtgoing] at hstep
      cases hstep
    | cons packet rest =>
      rw [houtgoing] at hstep
      cases hstep
      exact .deliver packet rest houtgoing
  | next =>
    rw [step] at hstep
    cases hphase : state.phase with
    | idle =>
      rw [hphase] at hstep
      cases hstep
    | between lastError =>
      rw [hphase] at hstep
      cases hstep
      exact .between lastError hphase
    | inside reader lastError =>
      rw [hphase] at hstep
      cases hstep
      exact .inside reader lastError hphase

theorem Stepped.tracks {next : Cancelling} (hstepped : Stepped state next)
    (htracks : Tracks last final answer state) : Tracks last final answer next := by
  cases hstepped with
  | deliver packet rest houtgoing => exact htracks.deliver houtgoing
  | between lastError hphase => exact htracks.next hphase
  | inside reader lastError hphase =>
    exact htracks.resume lastError (by rw [hphase]; rfl)

end Cancelling

end

/-- Behind a flush that came back in the last message, a request reads its own
response. -/
theorem Expects.next_awaits {outgoing : List Packet} {conn flushed sent : Connection}
    {header : PacketHeader} {payload : List UInt8} {fates : List Fate}
    (hexpects : Expects false outgoing conn) (hrange : conn.context.SizeInRange)
    (hflush : conn.flushStream = .returned (.ok ()) flushed)
    (hsend : flushed.send header (.ok payload) fates = .returned (.ok ()) sent)
    (response : Response) : (sent.arrive (outgoing ++ response.packets) .silent).Awaits response [] := by
  have husable : conn.ensureNotPoisoned = .ok () := by
    cases hguard : conn.ensureNotPoisoned with
    | ok value => rfl
    | error error =>
      simp only [Connection.flushStream, hguard] at hflush
      cases hflush
  obtain ⟨after, hreads, hafter, hbuf, -, hend⟩ := Connection.flushStream_expects hexpects husable
  rcases hend with ⟨hdone, hflushed⟩ | ⟨hwaits, -⟩
  · rw [hflush] at hdone
    cases hdone
    obtain ⟨-, hinbound, houtgoing⟩ := hafter.nothing_missing hflushed
    have hguard : flushed.ensureNotPoisoned = .ok () := by
      rw [show flushed = _ from hreads]
      exact husable
    have hsize : flushed.context.SizeInRange := by
      rw [hreads.context_eq]
      exact hrange
    rcases Connection.send_encoded header payload fates hguard hsize with
      ⟨other, hother, hwrote⟩ | ⟨hfail, -⟩
    · rw [hsend] at hother
      cases hother
      refine ⟨?_, hwrote.flushed, ?_⟩
      · change sent.transport.inbound ++ (outgoing ++ response.packets) = response.packets ++ []
        rw [hwrote.inbound, hinbound, houtgoing, List.append_nil]
        rfl
      · exact hwrote.buf.trans hbuf
    · exact absurd hsend (hfail sent)
  · rw [hflush] at hwaits
    cases hwaits

namespace Cancelling

variable {state : Cancelling} {tail : List UInt8}

theorem Tracks.sound [EncodingRs] {last : Packet} {final : Response}
    {answer : Option (TokenDone × List UInt8)} (htracks : Tracks last final answer state)
    (hanswer : ∀ done left, answer = some (done, left) → left <:+ tail) : state.Sound tail where
  consumed := fun done hdone => hanswer done _ (htracks.found done hdone)
  clean := by
    intro result hresult _ flushed hflush header payload fates sent hsend
    exact (htracks.returned result hresult).next_awaits htracks.range hflush hsend

/-- A call that was rejected, or whose writes did not come back. -/
structure Dead (state : Cancelling) : Prop where
  phase : state.phase = .idle
  rejects : state.conn.ensureNotPoisoned ≠ .ok ()
  result : ∀ done, state.result ≠ some (.ok done)

theorem Dead.sound (hdead : state.Dead) : state.Sound tail where
  consumed := fun done hdone => absurd hdone (hdead.result done)
  clean := by
    intro result _ _ flushed hflush
    cases hguard : state.conn.ensureNotPoisoned with
    | ok value => exact absurd hguard hdead.rejects
    | error error =>
      simp only [Connection.flushStream, hguard] at hflush
      cases hflush

theorem Stepped.dead [EncodingRs] {next : Cancelling} (hstepped : Stepped state next)
    (hdead : state.Dead) : next.Dead := by
  cases hstepped with
  | deliver packet rest houtgoing => exact ⟨hdead.phase, hdead.rejects, hdead.result⟩
  | between lastError hphase =>
    rw [hdead.phase] at hphase
    cases hphase
  | inside reader lastError hphase =>
    rw [hdead.phase] at hphase
    cases hphase

end Cancelling

/-- The Attention goes out whole, or leaves the connection poisoned. -/
theorem Connection.sendAttention_cases {conn : Connection} (fates : List Fate)
    (husable : conn.ensureNotPoisoned = .ok ()) :
    (∃ after, conn.sendAttention fates = .returned (.ok ()) after ∧
      { conn with context := conn.context.nextPacketId.2 }.Wrote after) ∨
    ((∀ after, conn.sendAttention fates ≠ .returned (.ok ()) after) ∧
      (conn.sendAttention fates).conn.poisoned = true) := by
  have hclear := (not_poisoned_of_guard husable).1
  generalize hopened : (openMessage { conn with context := conn.context.nextPacketId.2 }).2.poison =
    opened
  generalize hattempt : (opened.writeToWire conn.transport.messages
    (.attention conn.context.nextPacketId.1) [] (fates.headD .completes)) = attempt
  have hwrote : opened.Wrote attempt.conn := by
    rw [← hattempt]
    exact writeToWire_wrote _ _ _ _ opened
  have hsend : conn.sendAttention fates = attempt.andThen fun conn =>
      (flushSink (fates.tail.headD .completes) conn).andThen
        fun conn => .returned (.ok ()) conn.unpoison := by
    rw [← hattempt, ← hopened]
    simp only [sendAttention, husable]
    rfl
  rw [hsend, ← Attempt.andThen_assoc]
  have hboth : opened.Wrote (attempt.andThen (flushSink (fates.tail.headD .completes))).conn := by
    by_cases hdone : ∃ after, attempt = .returned (.ok ()) after
    · obtain ⟨after, rfl⟩ := hdone
      exact hwrote.trans (flushSink_wrote _ hwrote.flushed)
    · rw [Attempt.andThen_of_not_ok _ fun after hafter => hdone ⟨after, hafter⟩]
      exact hwrote
  generalize attempt.andThen (flushSink (fates.tail.headD .completes)) = both at hboth
  by_cases hdone : ∃ after, both = .returned (.ok ()) after
  · obtain ⟨after, rfl⟩ := hdone
    subst hopened
    exact Or.inl ⟨_, rfl, hboth.inbound, hboth.ending, hboth.buf, hboth.context, hboth.desync,
      hclear.symm, hboth.flushed⟩
  · rw [Attempt.andThen_of_not_ok _ fun after hafter => hdone ⟨after, hafter⟩]
    subst hopened
    exact Or.inr ⟨fun after hafter => hdone ⟨after, hafter⟩, hboth.poisoned⟩

/-- A call of `cancel_request` starts reading, or is over at once. -/
theorem Connection.cancelRequest_cases (conn : Connection) (outgoing : List Packet)
    (fates : List Fate) :
    (conn.ensureNotPoisoned = .ok () ∧ ∃ after,
      { conn with context := conn.context.nextPacketId.2 }.Wrote after ∧
      conn.cancelRequest outgoing fates =
        { conn := after, outgoing := outgoing, phase := .between none, result := none }) ∨
    (conn.cancelRequest outgoing fates).Dead := by
  cases hguard : conn.ensureNotPoisoned with
  | error error =>
    refine Or.inr ?_
    simp only [cancelRequest, sendAttention, hguard]
    refine ⟨rfl, fun hok => ?_, fun done hdone => ?_⟩
    · rw [hguard] at hok
      cases hok
    · cases hdone
  | ok value =>
    rcases conn.sendAttention_cases fates hguard with ⟨after, hsend, hwrote⟩ | ⟨hfail, hpoisoned⟩
    · refine Or.inl ⟨rfl, after, hwrote, ?_⟩
      simp only [cancelRequest, hsend]
    · refine Or.inr ?_
      have hrejects : (conn.sendAttention fates).conn.ensureNotPoisoned ≠ .ok () := by
        intro hok
        rw [(not_poisoned_of_guard hok).1] at hpoisoned
        cases hpoisoned
      unfold cancelRequest
      cases hattempt : conn.sendAttention fates with
      | returned result after =>
        rw [hattempt] at hrejects
        cases result with
        | ok value => exact absurd hattempt (hfail after)
        | error error =>
          refine ⟨rfl, hrejects, fun done hdone => ?_⟩
          cases hdone
      | dropped after =>
        rw [hattempt] at hrejects
        exact ⟨rfl, hrejects, fun done => (Option.some_ne_none (Except.ok done)).symm⟩
      | panicked after =>
        rw [hattempt] at hrejects
        exact ⟨rfl, hrejects, fun done => (Option.some_ne_none (Except.ok done)).symm⟩
      | running after =>
        rw [hattempt] at hrejects
        exact ⟨rfl, hrejects, fun done => (Option.some_ne_none (Except.ok done)).symm⟩

namespace Interruption

variable [EncodingRs] {interruption : Interruption} {after : Connection}

/-- The connection that the Attention went out on. -/
def Sent (interruption : Interruption) (after : Connection) : Prop :=
  { interruption.conn with context := interruption.context }.Wrote after

theorem Sent.toCome_eq (hsent : interruption.Sent after) :
    after.toCome interruption.outgoing = interruption.conn.toCome interruption.outgoing := by
  rw [Connection.toCome, Connection.toCome, Connection.unread, Connection.unread, hsent.buf,
    hsent.inbound]

theorem Sent.expects (hsent : interruption.Sent after) (hearly : interruption.early = none) :
    Expects false interruption.outgoing after := by
  have hpackets : after.transport.inbound ++ interruption.outgoing = interruption.final.packets := by
    rw [hsent.inbound, interruption.packets, hearly]
    rfl
  refine ⟨?_, fun hanswered => absurd hanswered Bool.false_ne_true,
    ⟨interruption.final.last, ?_⟩, ?_⟩
  · rw [hsent.flushed, hpackets,
      List.isEmpty_eq_false_iff.mpr interruption.final.packets_ne_nil]
    rfl
  · rw [hpackets]
    exact interruption.final.packets_endsWith
  · rw [hsent.ending]
    exact interruption.silent

theorem Sent.precedes {response : Response} (hsent : interruption.Sent after)
    (hearly : interruption.early = some response) :
    Precedes response.last interruption.final interruption.outgoing response.packets after where
  packets := by
    rw [hsent.inbound, interruption.packets, hearly]
    rfl
  flushed := by rw [hsent.flushed, List.isEmpty_eq_false_iff.mpr response.packets_ne_nil]
  ends := response.packets_endsWith
  silent := by
    rw [hsent.ending]
    exact interruption.silent

/-- The packet that ends the response in front of the acknowledgement. -/
def earlyLast (interruption : Interruption) : Packet :=
  interruption.early.elim interruption.final.last Response.last

theorem Sent.placed (hsent : interruption.Sent after) (hreads : interruption.ReadsOn) :
    Placed interruption.earlyLast interruption.final interruption.outgoing ReceivedToken.decode
      after := by
  cases hearly : interruption.early with
  | none => exact Or.inl (hsent.expects hearly)
  | some response =>
    have hlast : interruption.earlyLast = response.last := by
      rw [earlyLast, hearly]
      rfl
    obtain ⟨htokens, hnot⟩ := hreads response hearly
    obtain ⟨-, hpasses⟩ := passes_of_scanFrom response.last _ (Nat.le_refl _) htokens hnot
    rw [hlast]
    refine Or.inr ⟨response.packets, hsent.precedes hearly, ?_, Or.inl fun _ =>
      response.packets_ne_nil⟩
    rw [hsent.context, hsent.buf]
    exact hpasses

theorem Sent.tracks (hsent : interruption.Sent after) (hreads : interruption.ReadsOn) :
    Cancelling.Tracks interruption.earlyLast interruption.final
      (firstAttention interruption.context (interruption.conn.toCome interruption.outgoing))
      { conn := after
        outgoing := interruption.outgoing
        phase := .between none
        result := none } where
  range := by
    rw [hsent.context]
    exact interruption.range
  search := by
    intro reader hreader
    cases hreader
    rw [hsent.context, hsent.toCome_eq]
    exact attentionFrom_first _ _ _ (Nat.le_refl _)
  place := by
    intro reader hreader
    cases hreader
    exact hsent.placed hreads
  boundary := by
    intro lastError _ heof
    rw [Connection.isEof, hsent.flushed] at heof
    cases heof
  running := fun _ => rfl
  found := by
    intro done hdone
    cases hdone
  returned := by
    intro result hresult
    cases hresult

end Interruption

namespace Cancelling

/-- What every step of a call keeps holds in every state it reaches. -/
theorem reached_keeps [EncodingRs] {start state : Cancelling}
    (hreach : Reached step (fun _ _ => True) start state) (Inv : Cancelling → Prop)
    (hstart : Inv start) (hstep : ∀ state next, Stepped state next → Inv state → Inv next) :
    Inv state :=
  hreach.keeps Inv hstart fun state _ next hinv _ hnext => hstep state next (stepped hnext) hinv

end Cancelling

theorem cancel_sound_of_readsOn [EncodingRs] {interruption : Interruption}
    (hmeets : interruption.MeetsNoOther) (hreads : interruption.ReadsOn) (fates : List Fate)
    {state : Cancelling}
    (hreach : Reached Cancelling.step (fun _ _ => True)
      (interruption.conn.cancelRequest interruption.outgoing fates) state) :
    state.Sound interruption.tail := by
  rcases interruption.conn.cancelRequest_cases interruption.outgoing fates with
    ⟨-, after, hsent, hstart⟩ | hdead
  · rw [hstart] at hreach
    have htracks := Cancelling.reached_keeps hreach _
      (Interruption.Sent.tracks hsent hreads) fun _ _ hstepped htracks => hstepped.tracks htracks
    exact htracks.sound hmeets
  · have hdead := Cancelling.reached_keeps hreach _ hdead fun _ _ hstepped hdead =>
      hstepped.dead hdead
    exact hdead.sound

theorem cancel_sound_of_rejected [EncodingRs] {conn : Connection} {outgoing : List Packet}
    (hrejects : conn.ensureNotPoisoned ≠ .ok ()) (fates : List Fate) {state : Cancelling}
    {tail : List UInt8}
    (hreach : Reached Cancelling.step (fun _ _ => True) (conn.cancelRequest outgoing fates) state) :
    state.Sound tail := by
  rcases conn.cancelRequest_cases outgoing fates with ⟨husable, -⟩ | hdead
  · exact absurd husable hrejects
  · have hdead := Cancelling.reached_keeps hreach _ hdead fun _ _ hstepped hdead =>
      hstepped.dead hdead
    exact hdead.sound

end Tiberius
