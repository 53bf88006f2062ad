import Tiberius.Guard
import Tiberius.PacketCodec

/-!
The buffers that packets are encoded into. The encoder of a packet writes its
length at a fixed place of the destination, which is right only when nothing
stands in front of the packet. Here every write is run with a log of the calls
of that encoder; without the log the runs are those of the session, and in every
run the destinations are empty.
-/

namespace Tiberius

open Reading

/-- A call of `Packet::encode`. -/
structure EncodeCall where
  packet : Packet
  dst : List UInt8

/-- An outcome, and the calls of the packet encoder that led to it. -/
structure Logged (α : Type) where
  calls : List EncodeCall
  outcome : α

namespace Logged

def quiet {α : Type} (outcome : α) : Logged α where
  calls := []
  outcome := outcome

/-- What follows a write that returned without an error. -/
def andThen (first : Logged Attempt) (next : Connection → Logged Attempt) : Logged Attempt :=
  match first.outcome with
  | .returned (.ok ()) conn =>
    { calls := first.calls ++ (next conn).calls
      outcome := (next conn).outcome }
  | other => { calls := first.calls, outcome := other }

def map {α β : Type} (f : α → β) (logged : Logged α) : Logged β where
  calls := logged.calls
  outcome := f logged.outcome

/-- Every packet has been encoded into an empty buffer. -/
def Fresh {α : Type} (logged : Logged α) : Prop := ∀ call ∈ logged.calls, call.dst = []

theorem andThen_outcome (first : Logged Attempt) (next : Connection → Logged Attempt) :
    (first.andThen next).outcome = first.outcome.andThen fun conn => (next conn).outcome := by
  obtain ⟨calls, outcome⟩ := first
  cases outcome with
  | returned result conn => cases result <;> rfl
  | dropped conn => rfl
  | panicked conn => rfl
  | running conn => rfl

theorem quiet_fresh {α : Type} (outcome : α) : (quiet outcome).Fresh :=
  fun _ hcall => absurd hcall List.not_mem_nil

theorem andThen_fresh {first : Logged Attempt} {next : Connection → Logged Attempt}
    (hfirst : first.Fresh)
    (hnext : ∀ conn, first.outcome = .returned (.ok ()) conn → (next conn).Fresh) :
    (first.andThen next).Fresh := by
  obtain ⟨calls, outcome⟩ := first
  cases outcome with
  | returned result conn =>
    cases result with
    | ok value =>
      intro call hcall
      rcases List.mem_append.mp hcall with hold | hnew
      · exact hfirst call hold
      · exact hnext conn rfl call hnew
    | error error => exact hfirst
  | dropped conn => exact hfirst
  | panicked conn => exact hfirst
  | running conn => exact hfirst

end Logged

namespace Connection

/-- `write_to_wire`: the packet is encoded into the sink as it stands. -/
def writeToWireLogged (message : ℕ) (header : PacketHeader) (data : List UInt8) (fate : Fate)
    (conn : Connection) : Logged Attempt where
  calls := [{ packet := { header := header, payload := data }, dst := conn.transport.sink }]
  outcome := conn.writeToWire message header data fate

def sendLoopLogged (message chunk : ℕ) :
    ℕ → PacketHeader → List UInt8 → List Fate → Connection → Logged Attempt
  | 0, _, _, _, conn => .quiet (.running conn)
  | fuel + 1, header, payload, fates, conn =>
    if payload.isEmpty then .quiet (flushSink (fates.headD .completes) conn)
    else
      let splitPayload := payload.take (min payload.length chunk)
      let payload := payload.drop (min payload.length chunk)
      let header :=
        header.setStatus (if payload.isEmpty then .endOfMessage else .normalMessage)
      (writeToWireLogged message header splitPayload (fates.headD .completes) conn).andThen
        fun conn => sendLoopLogged message chunk fuel header payload fates.tail conn

def sendLogged (header : PacketHeader) (item : Except Error (List UInt8)) (fates : List Fate)
    (conn : Connection) : Logged Attempt :=
  match conn.ensureNotPoisoned with
  | .error error => .quiet (.returned (.error error) conn)
  | .ok () =>
    let conn := { conn with flushed := false }
    match conn.context.chunkSize with
    | none => .quiet (.panicked conn)
    | some chunk =>
      match item with
      | .error error => .quiet (.returned (.error error) conn)
      | .ok payload =>
        let (message, conn) := conn.openMessage
        (sendLoopLogged message chunk (payload.length + 1) header payload fates
          conn.poison).andThen fun conn => .quiet (.returned (.ok ()) conn.unpoison)

def sendAttentionLogged (fates : List Fate) (conn : Connection) : Logged Attempt :=
  match conn.ensureNotPoisoned with
  | .error error => .quiet (.returned (.error error) conn)
  | .ok () =>
    let (id, context) := conn.context.nextPacketId
    let (message, conn) := { conn with context := context }.openMessage
    (writeToWireLogged message (.attention id) [] (fates.headD .completes) conn.poison).andThen
      fun conn =>
        Logged.andThen (.quiet (flushSink (fates.tail.headD .completes) conn))
          fun conn => .quiet (.returned (.ok ()) conn.unpoison)

theorem sendLoopLogged_outcome (message chunk fuel : ℕ) (header : PacketHeader)
    (payload : List UInt8) (fates : List Fate) (conn : Connection) :
    (sendLoopLogged message chunk fuel header payload fates conn).outcome =
      sendLoop message chunk fuel header payload fates conn := by
  induction fuel generalizing header payload fates conn with
  | zero => rfl
  | succ fuel ih =>
    rw [sendLoopLogged, sendLoop]
    split
    · rfl
    · simp only [Logged.andThen_outcome, writeToWireLogged, ih]

theorem sendLogged_outcome (header : PacketHeader) (item : Except Error (List UInt8))
    (fates : List Fate) (conn : Connection) :
    (sendLogged header item fates conn).outcome = send header item fates conn := by
  unfold sendLogged send
  cases conn.ensureNotPoisoned with
  | error error => rfl
  | ok value =>
    simp only
    cases conn.context.chunkSize with
    | none => rfl
    | some chunk =>
      cases item with
      | error error => rfl
      | ok payload => simp only [Logged.andThen_outcome, sendLoopLogged_outcome, Logged.quiet]

theorem sendAttentionLogged_outcome (fates : List Fate) (conn : Connection) :
    (sendAttentionLogged fates conn).outcome = sendAttention fates conn := by
  unfold sendAttentionLogged sendAttention
  cases conn.ensureNotPoisoned with
  | error error => rfl
  | ok value => simp only [Logged.andThen_outcome, writeToWireLogged, Logged.quiet]

variable {conn : Connection}

theorem writeToWireLogged_fresh (message : ℕ) (header : PacketHeader) (data : List UInt8)
    (fate : Fate) (hclean : conn.transport.Clean) :
    (writeToWireLogged message header data fate conn).Fresh := by
  intro call hcall
  rw [writeToWireLogged, List.mem_singleton] at hcall
  rw [hcall]
  exact hclean.sink

/-- A packet is only written once the one before it has left the sink. -/
theorem sendLoopLogged_fresh (message chunk fuel : ℕ) (header : PacketHeader)
    (payload : List UInt8) (fates : List Fate) (hclean : conn.transport.Clean) :
    (sendLoopLogged message chunk fuel header payload fates conn).Fresh := by
  induction fuel generalizing header payload fates conn with
  | zero => exact Logged.quiet_fresh _
  | succ fuel ih =>
    rw [sendLoopLogged]
    split
    · exact Logged.quiet_fresh _
    · apply Logged.andThen_fresh (writeToWireLogged_fresh _ _ _ _ hclean)
      intro after hafter
      exact ih _ _ _ ((writeToWire_sends _ _ _ _ hclean).clean hclean hafter)

theorem sendLogged_fresh (header : PacketHeader) (item : Except Error (List UInt8))
    (fates : List Fate) (hclean : conn.poisoned = false → conn.transport.Clean) :
    (sendLogged header item fates conn).Fresh := by
  unfold sendLogged
  cases hguard : conn.ensureNotPoisoned with
  | error error => exact Logged.quiet_fresh _
  | ok value =>
    have hopen := hclean (not_poisoned_of_guard hguard).1
    simp only
    cases conn.context.chunkSize with
    | none => exact Logged.quiet_fresh _
    | some chunk =>
      cases item with
      | error error => exact Logged.quiet_fresh _
      | ok payload =>
        refine Logged.andThen_fresh (sendLoopLogged_fresh _ _ _ _ _ _ ?_) ?_
        · exact ⟨hopen.sink, hopen.frames⟩
        · exact fun after _ => Logged.quiet_fresh _

theorem sendAttentionLogged_fresh (fates : List Fate)
    (hclean : conn.poisoned = false → conn.transport.Clean) :
    (sendAttentionLogged fates conn).Fresh := by
  unfold sendAttentionLogged
  cases hguard : conn.ensureNotPoisoned with
  | error error => exact Logged.quiet_fresh _
  | ok value =>
    have hopen := hclean (not_poisoned_of_guard hguard).1
    simp only [Context.nextPacketId, openMessage]
    refine Logged.andThen_fresh (writeToWireLogged_fresh _ _ _ _ ?_) ?_
    · exact ⟨hopen.sink, hopen.frames⟩
    · intro after _
      exact Logged.andThen_fresh (Logged.quiet_fresh _) fun last _ => Logged.quiet_fresh _

end Connection

namespace BulkLoadRequest

def writeLoopLogged (chunk : ℕ) :
    ℕ → BulkLoadRequest → List Fate → Connection → Logged (Attempt × BulkLoadRequest × List Fate)
  | 0, request, fates, conn => .quiet (.running conn, request, fates)
  | fuel + 1, request, fates, conn =>
    if request.buf.length ≤ chunk then .quiet (.returned (.ok ()) conn, request, fates)
    else
      let data := request.buf.take chunk
      let rest := { request with buf := request.buf.drop chunk }
      let written := conn.writeToWireLogged request.message (.bulkLoad request.packetId) data
        (fates.headD .completes)
      match written.outcome with
      | .returned (.ok ()) conn =>
        let later := writeLoopLogged chunk fuel rest fates.tail conn
        { calls := written.calls ++ later.calls, outcome := later.outcome }
      | other => { calls := written.calls, outcome := (other, rest, fates.tail) }

def writePacketsLogged (request : BulkLoadRequest) (fates : List Fate) (conn : Connection) :
    Logged (Attempt × BulkLoadRequest × List Fate) :=
  match conn.context.chunkSize with
  | none => .quiet (.panicked conn, request, fates)
  | some chunk =>
    if request.buf.length ≤ chunk then .quiet (.returned (.ok ()) conn, request, fates)
    else
      (writeLoopLogged chunk (request.buf.length + 1) request fates conn.poison).map
        fun (attempt, request, fates) =>
          (attempt.andThen fun conn => .returned (.ok ()) conn.unpoison, request, fates)

def sendLogged (request : BulkLoadRequest) (row : Except Error (List UInt8)) (fates : List Fate)
    (conn : Connection) : Logged (Attempt × BulkLoadRequest) :=
  match conn.ensureNotPoisoned with
  | .error error => .quiet (.returned (.error error) conn, request)
  | .ok () =>
    match row with
    | .error error => .quiet (.returned (.error error) conn, request)
    | .ok bytes =>
      (writePacketsLogged { request with buf := request.buf ++ bytes } fates conn).map
        fun (attempt, request, _) => (attempt, request)

def writeLastLogged (request : BulkLoadRequest) (fates : List Fate) (conn : Connection) :
    Logged Attempt :=
  let header := (PacketHeader.bulkLoad request.packetId).setStatus .endOfMessage
  (conn.poison.writeToWireLogged request.message header request.buf
    (fates.headD .completes)).andThen fun conn =>
      Logged.andThen (.quiet (conn.flushSink (fates.tail.headD .completes)))
        fun conn => .quiet (.returned (.ok ()) conn.unpoison)

def finalizeLogged (request : BulkLoadRequest) (fates : List Fate) (conn : Connection) :
    Logged Attempt :=
  match conn.ensureNotPoisoned with
  | .error error => .quiet (.returned (.error error) conn)
  | .ok () =>
    let packets := writePacketsLogged { request with buf := request.buf ++ defaultDoneBytes } fates
      conn
    (packets.map Prod.fst).andThen fun conn =>
      writeLastLogged packets.outcome.2.1 packets.outcome.2.2 conn

theorem writeLoopLogged_outcome (chunk fuel : ℕ) (request : BulkLoadRequest) (fates : List Fate)
    (conn : Connection) :
    (writeLoopLogged chunk fuel request fates conn).outcome =
      writeLoop chunk fuel request fates conn := by
  induction fuel generalizing request fates conn with
  | zero => rfl
  | succ fuel ih =>
    rw [writeLoopLogged, writeLoop]
    split
    · rfl
    · simp only [Connection.writeToWireLogged]
      cases conn.writeToWire request.message (.bulkLoad request.packetId)
          (request.buf.take chunk) (fates.headD .completes) with
      | returned result after =>
        cases result with
        | ok value => exact ih _ _ after
        | error error => rfl
      | dropped after => rfl
      | panicked after => rfl
      | running after => rfl

theorem writePacketsLogged_outcome (request : BulkLoadRequest) (fates : List Fate)
    (conn : Connection) :
    (writePacketsLogged request fates conn).outcome = writePackets request fates conn := by
  unfold writePacketsLogged writePackets
  cases conn.context.chunkSize with
  | none => rfl
  | some chunk =>
    simp only
    split
    · rfl
    · simp only [Logged.map, writeLoopLogged_outcome]

theorem sendLogged_outcome (request : BulkLoadRequest) (row : Except Error (List UInt8))
    (fates : List Fate) (conn : Connection) :
    (sendLogged request row fates conn).outcome = send request row fates conn := by
  unfold sendLogged send
  cases conn.ensureNotPoisoned with
  | error error => rfl
  | ok value =>
    cases row with
    | error error => rfl
    | ok bytes => simp only [Logged.map, writePacketsLogged_outcome]

theorem finalizeLogged_outcome (request : BulkLoadRequest) (fates : List Fate)
    (conn : Connection) :
    (finalizeLogged request fates conn).outcome = finalize request fates conn := by
  unfold finalizeLogged finalize
  cases conn.ensureNotPoisoned with
  | error error => rfl
  | ok value =>
    simp only [Logged.andThen_outcome, Logged.map, writePacketsLogged_outcome, writeLastLogged,
      writeLast, Connection.writeToWireLogged, Logged.quiet]

variable {conn : Connection}

theorem writeLoopLogged_fresh (chunk fuel : ℕ) (request : BulkLoadRequest) (fates : List Fate)
    (hclean : conn.transport.Clean) :
    (writeLoopLogged chunk fuel request fates conn).Fresh := by
  induction fuel generalizing request fates conn with
  | zero => exact Logged.quiet_fresh _
  | succ fuel ih =>
    have hfirst := Connection.writeToWireLogged_fresh request.message
      (.bulkLoad request.packetId) (request.buf.take chunk) (fates.headD .completes) hclean
    have hsends := Connection.writeToWire_sends request.message (.bulkLoad request.packetId)
      (request.buf.take chunk) (fates.headD .completes) hclean
    rw [writeLoopLogged]
    split
    · exact Logged.quiet_fresh _
    · simp only
      split
      · rename_i after hafter
        intro call hcall
        rcases List.mem_append.mp hcall with hold | hnew
        · exact hfirst call hold
        · exact ih _ _ (hsends.clean hclean hafter) call hnew
      · exact hfirst

theorem writePacketsLogged_fresh (request : BulkLoadRequest) (fates : List Fate)
    (hclean : conn.transport.Clean) : (writePacketsLogged request fates conn).Fresh := by
  unfold writePacketsLogged
  cases conn.context.chunkSize with
  | none => exact Logged.quiet_fresh _
  | some chunk =>
    simp only
    split
    · exact Logged.quiet_fresh _
    · exact writeLoopLogged_fresh chunk _ request fates ⟨hclean.sink, hclean.frames⟩

theorem sendLogged_fresh (request : BulkLoadRequest) (row : Except Error (List UInt8))
    (fates : List Fate) (hclean : conn.poisoned = false → conn.transport.Clean) :
    (sendLogged request row fates conn).Fresh := by
  unfold sendLogged
  cases hguard : conn.ensureNotPoisoned with
  | error error => exact Logged.quiet_fresh _
  | ok value =>
    cases row with
    | error error => exact Logged.quiet_fresh _
    | ok bytes =>
      exact writePacketsLogged_fresh { request with buf := request.buf ++ bytes } fates
        (hclean (Connection.not_poisoned_of_guard hguard).1)

theorem writeLastLogged_fresh (request : BulkLoadRequest) (fates : List Fate)
    (hclean : conn.transport.Clean) : (writeLastLogged request fates conn).Fresh := by
  refine Logged.andThen_fresh (Connection.writeToWireLogged_fresh _ _ _ _ ?_) ?_
  · exact ⟨hclean.sink, hclean.frames⟩
  · intro after _
    exact Logged.andThen_fresh (Logged.quiet_fresh _) fun last _ => Logged.quiet_fresh _

theorem finalizeLogged_fresh {request : BulkLoadRequest} (fates : List Fate)
    (hclean : conn.poisoned = false → conn.transport.Clean)
    (hmessage : request.message < conn.transport.messages) (hrange : conn.context.SizeInRange) :
    (finalizeLogged request fates conn).Fresh := by
  unfold finalizeLogged
  cases hguard : conn.ensureNotPoisoned with
  | error error => exact Logged.quiet_fresh _
  | ok value =>
    have hclear := (Connection.not_poisoned_of_guard hguard).1
    generalize hlonger : { request with buf := request.buf ++ defaultDoneBytes } = longer
    have hlonger_message : longer.message = request.message := by rw [← hlonger]
    have hpackets := writePacketsLogged_fresh longer fates (hclean hclear)
    simp only
    refine Logged.andThen_fresh hpackets ?_
    intro middle hmiddle
    apply writeLastLogged_fresh
    -- The packets in front of the last one have left the sink when it is written.
    obtain ⟨frames, hwrites, hback⟩ := @writePackets_writes conn longer (hclean hclear) hguard
      (by rw [hlonger_message]; exact hmessage) hrange fates
    simp only [Logged.map, writePacketsLogged_outcome] at hmiddle
    rw [hmiddle] at hwrites hback
    rcases hback with ⟨-, hstuck⟩ | ⟨other, hother, hguarded⟩
    · exact absurd rfl (hstuck middle)
    · simp only [Attempt.returned.injEq, true_and] at hother
      subst hother
      exact hwrites.clean hclean (Connection.not_poisoned_of_guard hguarded).1

end BulkLoadRequest

namespace Session

/-- A step of a session with the packets it encodes. Only the writes of a
connection and of its bulk request encode any: the login is framed past the
sink. -/
def stepLogged [EncodingRs] (session : Session) (action : Action) : Option (Logged Session) :=
  match action with
  | .send header item fates =>
    match session.bulk with
    | none =>
      some ((session.conn.sendLogged header item fates).map
        fun attempt => { session with conn := attempt.conn })
    | some _ => none
  | .sendAttention fates =>
    match session.bulk with
    | none =>
      some ((session.conn.sendAttentionLogged fates).map
        fun attempt => { session with conn := attempt.conn })
    | some _ => none
  | .bulkSend row fates =>
    session.bulk.map fun request =>
      (request.sendLogged row fates session.conn).map
        fun (attempt, request) => { conn := attempt.conn, bulk := some request }
  | .bulkFinalize fates =>
    session.bulk.map fun request =>
      (request.finalizeLogged fates session.conn).map
        fun attempt => { conn := attempt.conn, bulk := none }
  | other => (session.step other).map .quiet

variable [EncodingRs] {session : Session}

/-- Without the log, a logged step is a step of the session. -/
theorem stepLogged_outcome (session : Session) (action : Action) :
    (session.stepLogged action).map Logged.outcome = session.step action := by
  have hquiet : ∀ other, ((session.step other).map Logged.quiet).map Logged.outcome =
      session.step other := by
    intro other
    cases session.step other <;> rfl
  cases action with
  | send header item fates =>
    simp only [stepLogged, step, onConnection]
    cases session.bulk with
    | none => simp only [Option.map_some, Logged.map, Connection.sendLogged_outcome]
    | some request => rfl
  | sendAttention fates =>
    simp only [stepLogged, step, onConnection]
    cases session.bulk with
    | none => simp only [Option.map_some, Logged.map, Connection.sendAttentionLogged_outcome]
    | some request => rfl
  | bulkSend row fates =>
    simp only [stepLogged, step]
    cases session.bulk with
    | none => rfl
    | some request =>
      simp only [Option.map_some, Logged.map, BulkLoadRequest.sendLogged_outcome]
  | bulkFinalize fates =>
    simp only [stepLogged, step]
    cases session.bulk with
    | none => rfl
    | some request =>
      simp only [Option.map_some, Logged.map, BulkLoadRequest.finalizeLogged_outcome]
  | sendSensitiveLogin header payload fates => exact hquiet _
  | bulkNew cmd => exact hquiet _
  | bulkDrop => exact hquiet _
  | flushStream => exact hquiet _
  | read reader => exact hquiet _
  | elapse timeout => exact hquiet _
  | arrive packets ending => exact hquiet (.arrive packets ending)

theorem stepLogged_fresh (hkept : session.Kept) {action : Action} {logged : Logged Session}
    (hstep : session.stepLogged action = some logged) : logged.Fresh := by
  have hquiet : ∀ other, (session.step other).map Logged.quiet = some logged → logged.Fresh := by
    intro other hother
    obtain ⟨next, -, rfl⟩ := Option.map_eq_some_iff.mp hother
    exact Logged.quiet_fresh next
  cases action with
  | send header item fates =>
    simp only [stepLogged] at hstep
    cases hbulk : session.bulk with
    | none =>
      rw [hbulk] at hstep
      cases hstep
      exact Connection.sendLogged_fresh header item fates hkept.clean
    | some request =>
      rw [hbulk] at hstep
      cases hstep
  | sendAttention fates =>
    simp only [stepLogged] at hstep
    cases hbulk : session.bulk with
    | none =>
      rw [hbulk] at hstep
      cases hstep
      exact Connection.sendAttentionLogged_fresh fates hkept.clean
    | some request =>
      rw [hbulk] at hstep
      cases hstep
  | bulkSend row fates =>
    obtain ⟨request, hbulk, rfl⟩ := Option.map_eq_some_iff.mp hstep
    exact request.sendLogged_fresh row fates hkept.clean
  | bulkFinalize fates =>
    obtain ⟨request, hbulk, rfl⟩ := Option.map_eq_some_iff.mp hstep
    exact BulkLoadRequest.finalizeLogged_fresh fates hkept.clean (hkept.bulk request hbulk)
      hkept.range
  | sendSensitiveLogin header payload fates => exact hquiet _ hstep
  | bulkNew cmd => exact hquiet _ hstep
  | bulkDrop => exact hquiet _ hstep
  | flushStream => exact hquiet _ hstep
  | read reader => exact hquiet _ hstep
  | elapse timeout => exact hquiet _ hstep
  | arrive packets ending => exact hquiet (.arrive packets ending) hstep

end Session

/-- In every run of a session, whatever of it completes, fails or is dropped,
each packet is encoded into an empty buffer, and so under its own length. -/
theorem packets_encoded_into_empty [EncodingRs] {inbound : List Packet} {ending : Ending}
    {session : Session}
    (hreach : Reached Session.step (fun _ _ => True) (.new inbound ending) session)
    (action : Action) {logged : Logged Session}
    (hstep : session.stepLogged action = some logged) :
    session.step action = some logged.outcome ∧
      ∀ call ∈ logged.calls, call.dst = [] ∧
        call.packet.encode call.dst =
          call.packet.framed.header.encode ++ call.packet.payload := by
  constructor
  · rw [← Session.stepLogged_outcome, hstep]
    rfl
  · intro call hcall
    have hempty := Session.stepLogged_fresh (Session.reached_kept hreach) hstep call hcall
    refine ⟨hempty, ?_⟩
    rw [hempty]
    exact call.packet.encode_framed

/-- A batch of three packets behind another batch. -/
theorem packets_encoded_into_empty_batch :
    ∃ session logged,
      Reached (@Session.step .ascii) (fun _ _ => True) (.new [] .silent) session ∧
      session.conn.transport.wire = [1, 1, 0, 10, 0, 0, 1, 0, 0x41, 0] ∧
      @Session.stepLogged .ascii session (.send (.batch 2) (.ok (List.replicate 9000 0)) []) =
        some logged ∧
      logged.calls.length = 3 ∧
      ∀ call ∈ logged.calls, call.dst = [] ∧ call.packet.encode call.dst =
        call.packet.framed.header.encode ++ call.packet.payload := by
  have hrun : ∃ session logged,
      Reached (@Session.step .ascii) (fun _ _ => True) (.new [] .silent) session ∧
        session.conn.transport.wire = [1, 1, 0, 10, 0, 0, 1, 0, 0x41, 0] ∧
        @Session.stepLogged .ascii session (.send (.batch 2) (.ok (List.replicate 9000 0)) []) =
          some logged ∧
        logged.calls.length = 3 := by
    refine ⟨_, _, .tail .refl ⟨.send (.batch 1) (.ok [0x41, 0]) [], trivial, rfl⟩, rfl, rfl, ?_⟩
    decide +kernel
  obtain ⟨session, logged, hreach, hwire, hstep, hcalls⟩ := hrun
  have hempty := (@packets_encoded_into_empty .ascii [] .silent session hreach _ logged hstep).2
  exact ⟨session, logged, hreach, hwire, hstep, hcalls, hempty⟩

end Tiberius
