import Tiberius.Framing
import Tiberius.Session

/-!
The poison flag over whole runs. Every write sets it before its first packet and
clears it only when all awaits have come back, so a connection that is not
poisoned has nothing in its sink and no frame on the wire in part. On such a
connection `send` writes exactly the frames of the login framer.
-/

namespace Tiberius

open Reading

theorem Attempt.andThen_assoc (attempt : Attempt) (first second : Connection → Attempt) :
    (attempt.andThen first).andThen second =
      attempt.andThen fun conn => (first conn).andThen second := by
  cases attempt with
  | returned result conn => cases result <;> rfl
  | dropped conn => rfl
  | panicked conn => rfl
  | running conn => rfl

theorem Connection.not_poisoned_of_guard {conn : Connection} {value : Unit}
    (hguard : conn.ensureNotPoisoned = .ok value) :
    conn.poisoned = false ∧ conn.commandDesync = false := by
  unfold ensureNotPoisoned at hguard
  cases hpoisoned : conn.poisoned with
  | true => simp only [hpoisoned, if_true, reduceCtorEq] at hguard
  | false =>
    cases hdesync : conn.commandDesync with
    | true =>
      simp only [hpoisoned, hdesync, Bool.false_eq_true, if_false, if_true, reduceCtorEq] at hguard
    | false => exact ⟨rfl, rfl⟩

theorem Connection.guard_of_not_poisoned {conn : Connection} (hpoisoned : conn.poisoned = false)
    (hdesync : conn.commandDesync = false) : conn.ensureNotPoisoned = .ok () := by
  simp only [ensureNotPoisoned, hpoisoned, hdesync, Bool.false_eq_true, if_false]

/-- What a write operation of one message does to a session: it hands over
frames of that message, and unless it leaves the connection poisoned they are
all on the wire. -/
structure Writes (conn : Connection) (message : ℕ) (after : Connection) (frames : List Frame) :
    Prop where
  frames_eq : after.transport.frames = conn.transport.frames ++ frames
  message_eq : ∀ frame ∈ frames, frame.message = message
  messages_le : conn.transport.messages ≤ after.transport.messages
  message_lt : ∀ frame ∈ frames, frame.message < after.transport.messages
  desync_of : conn.commandDesync = true → after.commandDesync = true
  range : conn.context.SizeInRange → after.context.SizeInRange
  poisoned_of : conn.poisoned = true → after.poisoned = true
  settled : after.poisoned = false → after.transport.sink = [] ∧
    ∀ frame ∈ frames, frame.sent = frame.size
  guarded : frames ≠ [] → conn.ensureNotPoisoned = .ok ()

namespace Writes

variable {conn middle after : Connection} {message : ℕ} {frames more : List Frame}

theorem clean (hwrites : Writes conn message after frames)
    (hclean : conn.poisoned = false → conn.transport.Clean) (hafter : after.poisoned = false) :
    after.transport.Clean := by
  have hconn : conn.poisoned = false := by
    cases hpoisoned : conn.poisoned with
    | false => rfl
    | true =>
      rw [hwrites.poisoned_of hpoisoned] at hafter
      cases hafter
  obtain ⟨hsink, hframes⟩ := hwrites.settled hafter
  refine ⟨hsink, fun frame hframe => ?_⟩
  rw [hwrites.frames_eq, List.mem_append] at hframe
  rcases hframe with hold | hnew
  · exact (hclean hconn).frames frame hold
  · exact hframes frame hnew

/-- An operation that writes nothing. -/
theorem nothing (message : ℕ) (hframes : after.transport.frames = conn.transport.frames)
    (hmessages : conn.transport.messages ≤ after.transport.messages)
    (hdesync : conn.commandDesync = true → after.commandDesync = true)
    (hrange : conn.context.SizeInRange → after.context.SizeInRange)
    (hpoisoned : conn.poisoned = true → after.poisoned = true)
    (hsink : after.poisoned = false → after.transport.sink = []) :
    Writes conn message after [] where
  frames_eq := by rw [hframes, List.append_nil]
  message_eq := fun frame hframe => absurd hframe List.not_mem_nil
  messages_le := hmessages
  message_lt := fun frame hframe => absurd hframe List.not_mem_nil
  desync_of := hdesync
  range := hrange
  poisoned_of := hpoisoned
  settled := fun hafter => ⟨hsink hafter, fun frame hframe => absurd hframe List.not_mem_nil⟩
  guarded := fun hne => absurd rfl hne

theorem trans (hfirst : Writes conn message middle frames)
    (husable : conn.ensureNotPoisoned = .ok ()) (hmiddle : middle.poisoned = false)
    (hsecond : Writes middle message after more) : Writes conn message after (frames ++ more) where
  frames_eq := by rw [hsecond.frames_eq, hfirst.frames_eq, List.append_assoc]
  message_eq := fun frame hframe => (List.mem_append.mp hframe).elim (hfirst.message_eq frame)
    (hsecond.message_eq frame)
  messages_le := Nat.le_trans hfirst.messages_le hsecond.messages_le
  message_lt := fun frame hframe => (List.mem_append.mp hframe).elim
    (fun hold => Nat.lt_of_lt_of_le (hfirst.message_lt frame hold) hsecond.messages_le)
    (hsecond.message_lt frame)
  desync_of := fun hdesync => hsecond.desync_of (hfirst.desync_of hdesync)
  range := fun hrange => hsecond.range (hfirst.range hrange)
  poisoned_of := fun hpoisoned => hsecond.poisoned_of (hfirst.poisoned_of hpoisoned)
  settled := fun hafter => ⟨(hsecond.settled hafter).1, fun frame hframe =>
    (List.mem_append.mp hframe).elim ((hfirst.settled hmiddle).2 frame)
      ((hsecond.settled hafter).2 frame)⟩
  guarded := fun _ => husable

/-- A write between poison and unpoison: the flag is clear again only if all of
it came back. -/
theorem bracket {attempt : Attempt} (hsends : Sends conn.poison message attempt frames)
    (husable : conn.ensureNotPoisoned = .ok ()) (hmessage : message < conn.transport.messages) :
    Writes conn message
        (attempt.andThen fun conn => .returned (.ok ()) conn.unpoison).conn frames ∧
      ((attempt.andThen fun conn => .returned (.ok ()) conn.unpoison).conn.poisoned = false →
        ∃ middle, attempt = .returned (.ok ()) middle ∧
          middle.unpoison.ensureNotPoisoned = .ok ()) := by
  obtain ⟨hconn, hdesync⟩ := Connection.not_poisoned_of_guard husable
  have heq := hsends.conn_eq
  by_cases hdone : ∃ after, attempt = .returned (.ok ()) after
  · obtain ⟨after, rfl⟩ := hdone
    have hafter : after = conn.poison.rewrite after.flushed after.transport.sink
        after.transport.wire (conn.transport.frames ++ frames) := heq
    have hback : after.unpoison.ensureNotPoisoned = .ok () := by
      rw [hafter]
      exact Connection.guard_of_not_poisoned rfl hdesync
    refine ⟨?_, fun _ => ⟨after, rfl, hback⟩⟩
    refine ⟨?_, hsends.message_eq, ?_, ?_, ?_, ?_, ?_, ?_, fun _ => husable⟩
    · exact hsends.frames_eq
    · change conn.transport.messages ≤ after.transport.messages
      rw [hafter]
      exact Nat.le_refl _
    · intro frame hframe
      change frame.message < after.transport.messages
      rw [hafter, hsends.message_eq frame hframe]
      exact hmessage
    · change conn.commandDesync = true → after.commandDesync = true
      rw [hafter]
      exact id
    · change conn.context.SizeInRange → after.context.SizeInRange
      rw [hafter]
      exact id
    · rw [hconn]
      intro hpoisoned
      cases hpoisoned
    · intro _
      exact hsends.settled after rfl
  · rw [Attempt.andThen_of_not_ok _ fun after hafter => hdone ⟨after, hafter⟩]
    have hpoisoned : attempt.conn.poisoned = true := by
      rw [hsends.poisoned_eq]
      rfl
    refine ⟨?_, fun hclear => by rw [hpoisoned] at hclear; cases hclear⟩
    refine ⟨hsends.frames_eq, hsends.message_eq, ?_, ?_, ?_, ?_, fun _ => hpoisoned, ?_,
      fun _ => husable⟩
    · rw [heq]
      exact Nat.le_refl _
    · intro frame hframe
      rw [heq, hsends.message_eq frame hframe]
      exact hmessage
    · rw [heq]
      exact id
    · rw [heq]
      exact id
    · intro hclear
      rw [hpoisoned] at hclear
      cases hclear

/-- A write on a connection whose message was only just opened. -/
theorem of_opened {opened : Connection} (hwrites : Writes opened message after frames)
    (hframes : opened.transport.frames = conn.transport.frames)
    (hmessages : conn.transport.messages ≤ opened.transport.messages)
    (hdesync : opened.commandDesync = conn.commandDesync)
    (hsize : conn.context.SizeInRange → opened.context.SizeInRange)
    (hpoisoned : opened.poisoned = conn.poisoned) (husable : conn.ensureNotPoisoned = .ok ()) :
    Writes conn message after frames where
  frames_eq := by rw [hwrites.frames_eq, hframes]
  message_eq := hwrites.message_eq
  messages_le := Nat.le_trans hmessages hwrites.messages_le
  message_lt := hwrites.message_lt
  desync_of := fun h => hwrites.desync_of (by rw [hdesync]; exact h)
  range := fun hrange => hwrites.range (hsize hrange)
  poisoned_of := fun h => hwrites.poisoned_of (by rw [hpoisoned]; exact h)
  settled := hwrites.settled
  guarded := fun _ => husable

end Writes

namespace Connection

variable {conn : Connection}

theorem send_writes (hclean : conn.poisoned = false → conn.transport.Clean)
    (header : PacketHeader) (item : Except Error (List UInt8)) (fates : List Fate) :
    ∃ frames, Writes conn conn.transport.messages (conn.send header item fates).conn frames ∧
      ((conn.send header item fates).conn.poisoned = false → Closed frames) := by
  have hquiet : Writes conn conn.transport.messages { conn with flushed := false } [] :=
    .nothing _ rfl (Nat.le_refl _) id id id fun hclear => (hclean hclear).sink
  have hsame : Writes conn conn.transport.messages conn [] :=
    .nothing _ rfl (Nat.le_refl _) id id id fun hclear => (hclean hclear).sink
  unfold send
  cases hguard : conn.ensureNotPoisoned with
  | error error => exact ⟨[], hsame, fun _ => Or.inl rfl⟩
  | ok value =>
    have hclear := (not_poisoned_of_guard hguard).1
    simp only
    cases hchunk : conn.context.chunkSize with
    | none => exact ⟨[], hquiet, fun _ => Or.inl rfl⟩
    | some chunk =>
      cases item with
      | error error => exact ⟨[], hquiet, fun _ => Or.inl rfl⟩
      | ok payload =>
        have hopen : (openMessage { conn with flushed := false }).2.poison.transport.Clean :=
          ⟨(hclean hclear).sink, (hclean hclear).frames⟩
        obtain ⟨frames, hsends, hclosed⟩ := sendLoop_sends conn.transport.messages chunk
          (payload.length + 1) header payload fates hopen
        obtain ⟨hwrites, hback⟩ := Writes.bracket hsends hguard (Nat.lt_succ_self _)
        refine ⟨frames, hwrites.of_opened rfl (Nat.le_succ _) rfl id rfl hguard, fun hafter => ?_⟩
        obtain ⟨middle, hmiddle, -⟩ := hback hafter
        exact (hclosed middle hmiddle).1

theorem sendSensitiveLogin_writes (hclean : conn.poisoned = false → conn.transport.Clean)
    (header : PacketHeader) (payload : List UInt8) (fates : List Fate) :
    ∃ frames, Writes conn conn.transport.messages
        (conn.sendSensitiveLogin header payload fates).conn frames ∧
      ((conn.sendSensitiveLogin header payload fates).conn.poisoned = false → Closed frames) := by
  have hquiet : Writes conn conn.transport.messages { conn with flushed := false } [] :=
    .nothing _ rfl (Nat.le_refl _) id id id fun hclear => (hclean hclear).sink
  have hsame : Writes conn conn.transport.messages conn [] :=
    .nothing _ rfl (Nat.le_refl _) id id id fun hclear => (hclean hclear).sink
  unfold sendSensitiveLogin
  cases hguard : conn.ensureNotPoisoned with
  | error error => exact ⟨[], hsame, fun _ => Or.inl rfl⟩
  | ok value =>
    have hclear := (not_poisoned_of_guard hguard).1
    simp only
    cases hchunk : conn.context.chunkSize with
    | none => exact ⟨[], hquiet, fun _ => Or.inl rfl⟩
    | some chunk =>
      simp only
      cases hframes : frameSensitiveLogin header payload chunk with
      | none => exact ⟨[], hquiet, fun _ => Or.inl rfl⟩
      | some pieces =>
        have hopen : (openMessage { conn with flushed := false }).2.poison.transport.Clean :=
          ⟨(hclean hclear).sink, (hclean hclear).frames⟩
        obtain ⟨frames, hsends, hclosed⟩ := writeFrames_sends conn.transport.messages pieces fates
          hopen
        obtain ⟨hwrites, hback⟩ := Writes.bracket hsends hguard (Nat.lt_succ_self _)
        refine ⟨frames, hwrites.of_opened rfl (Nat.le_succ _) rfl id rfl hguard, fun hafter => ?_⟩
        obtain ⟨middle, hmiddle, -⟩ := hback hafter
        exact (hclosed middle hmiddle).1

/-- One packet that ends its message, and the flush behind it. -/
theorem writeLastPacket_sends (message : ℕ) (header : PacketHeader) (data : List UInt8)
    (fates : List Fate) (hclean : conn.transport.Clean) (hlast : header.status = .endOfMessage) :
    ∃ frames, Sends conn message
      ((conn.writeToWire message header data (fates.headD .completes)).andThen fun conn =>
        conn.flushSink (fates.tail.headD .completes)) frames ∧
      Closed frames ∧ frames ≠ [] := by
  have hwrite := writeToWire_sends message header data (fates.headD .completes) hclean
  obtain ⟨all, hall, hsplit⟩ := hwrite.andThen
    (fun conn => conn.flushSink (fates.tail.headD .completes)) (fun _ => [])
    fun after hafter => flushSink_sends message _ (hwrite.clean hclean hafter)
  have hframe : (sentFrame message { header := header, payload := data }
      (fates.headD .completes)).last = true := by
    simp only [sentFrame, Packet.isLast, hlast, decide_true]
  by_cases hdone : ∃ after, conn.writeToWire message header data (fates.headD .completes) =
      .returned (.ok ()) after
  · obtain ⟨after, hafter⟩ := hdone
    have hone := hsplit after hafter
    rw [List.append_nil] at hone
    rw [hone] at hall
    exact ⟨_, hall, Or.inr ⟨_, rfl, hframe⟩, List.cons_ne_nil _ _⟩
  · rw [Attempt.andThen_of_not_ok _ fun after hafter => hdone ⟨after, hafter⟩]
    exact ⟨_, hwrite, Or.inr ⟨_, rfl, hframe⟩, List.cons_ne_nil _ _⟩

theorem sendAttention_writes (hclean : conn.poisoned = false → conn.transport.Clean)
    (fates : List Fate) :
    ∃ frames, Writes conn conn.transport.messages (conn.sendAttention fates).conn frames ∧
      Closed frames := by
  unfold sendAttention
  cases hguard : conn.ensureNotPoisoned with
  | error error =>
    exact ⟨[], .nothing _ rfl (Nat.le_refl _) id id id fun hclear => (hclean hclear).sink,
      Or.inl rfl⟩
  | ok value =>
    have hclear := (not_poisoned_of_guard hguard).1
    generalize hopened : (openMessage { conn with context := conn.context.nextPacketId.2 }).2 =
      opened
    have hopen : opened.poison.transport.Clean := by
      rw [← hopened]
      exact ⟨(hclean hclear).sink, (hclean hclear).frames⟩
    obtain ⟨frames, hsends, hclosed, -⟩ := writeLastPacket_sends conn.transport.messages
      (.attention conn.context.nextPacketId.1) [] fates hopen rfl
    have hopenguard : opened.ensureNotPoisoned = .ok () := by
      rw [← hopened]
      exact hguard
    obtain ⟨hwrites, -⟩ := Writes.bracket hsends hopenguard
      (by rw [← hopened]; exact Nat.lt_succ_self _)
    rw [Attempt.andThen_assoc] at hwrites
    subst hopened
    exact ⟨frames, hwrites.of_opened rfl (Nat.le_succ _) rfl id rfl hguard, hclosed⟩

end Connection

namespace BulkLoadRequest

variable {conn : Connection} {request : BulkLoadRequest}

theorem writePackets_message (request : BulkLoadRequest) (fates : List Fate) (conn : Connection) :
    (request.writePackets fates conn).2.1.message = request.message := by
  unfold writePackets
  cases conn.context.chunkSize with
  | none => rfl
  | some chunk =>
    simp only
    split
    · rfl
    · exact writeLoop_message chunk _ request fates conn.poison

/-- The packets written while a bulk request stays open: unless all of them came
back, the connection is poisoned. -/
theorem writePackets_writes (hclean : conn.transport.Clean)
    (husable : conn.ensureNotPoisoned = .ok ())
    (hmessage : request.message < conn.transport.messages) (hrange : conn.context.SizeInRange)
    (fates : List Fate) :
    ∃ frames, Writes conn request.message (request.writePackets fates conn).1.conn frames ∧
      ((request.writePackets fates conn).1.conn.poisoned = true ∧
          (∀ middle, (request.writePackets fates conn).1 ≠ .returned (.ok ()) middle) ∨
        ∃ middle, (request.writePackets fates conn).1 = .returned (.ok ()) middle ∧
          middle.ensureNotPoisoned = .ok ()) := by
  obtain ⟨chunk, hchunk, -, -⟩ := hrange.chunkSize
  unfold writePackets
  simp only [hchunk]
  by_cases hshort : request.buf.length ≤ chunk
  · simp only [hshort, if_true]
    exact ⟨[], .nothing _ rfl (Nat.le_refl _) id id id fun _ => hclean.sink,
      Or.inr ⟨conn, rfl, husable⟩⟩
  · simp only [hshort, if_false]
    have hopen : conn.poison.transport.Clean := ⟨hclean.sink, hclean.frames⟩
    obtain ⟨frames, hsends⟩ := writeLoop_sends chunk (request.buf.length + 1) request fates hopen
    obtain ⟨hwrites, hback⟩ := Writes.bracket hsends husable hmessage
    refine ⟨frames, hwrites, ?_⟩
    generalize hattempt : ((writeLoop chunk (request.buf.length + 1) request fates
      conn.poison).1.andThen fun conn => .returned (.ok ()) conn.unpoison) = attempt at hback ⊢
    cases hpoisoned : attempt.conn.poisoned with
    | true =>
      refine Or.inl ⟨rfl, fun after hafter => ?_⟩
      rw [hafter] at hattempt
      obtain ⟨middle, -, hmiddle⟩ := Attempt.andThen_ok hattempt
      simp only [Attempt.returned.injEq, true_and] at hmiddle
      rw [hafter, ← hmiddle] at hpoisoned
      cases hpoisoned
    | false =>
      obtain ⟨middle, hmiddle, hguard⟩ := hback hpoisoned
      refine Or.inr ⟨middle.unpoison, ?_, hguard⟩
      rw [← hattempt, hmiddle]
      rfl

theorem send_writes (hclean : conn.poisoned = false → conn.transport.Clean)
    (hmessage : request.message < conn.transport.messages) (hrange : conn.context.SizeInRange)
    (row : Except Error (List UInt8)) (fates : List Fate) :
    ∃ frames, Writes conn request.message (request.send row fates conn).1.conn frames := by
  have hsame : Writes conn request.message conn [] :=
    .nothing _ rfl (Nat.le_refl _) id id id fun hclear => (hclean hclear).sink
  unfold send
  cases hguard : conn.ensureNotPoisoned with
  | error error => exact ⟨[], hsame⟩
  | ok value =>
    have hclear := (Connection.not_poisoned_of_guard hguard).1
    cases row with
    | error error => exact ⟨[], hsame⟩
    | ok bytes =>
      obtain ⟨frames, hwrites, -⟩ := @writePackets_writes conn
        { request with buf := request.buf ++ bytes } (hclean hclear) hguard hmessage hrange fates
      exact ⟨frames, hwrites⟩

theorem send_message (request : BulkLoadRequest) (row : Except Error (List UInt8))
    (fates : List Fate) (conn : Connection) :
    (request.send row fates conn).2.message = request.message := by
  unfold send
  cases conn.ensureNotPoisoned with
  | error error => rfl
  | ok value =>
    cases row with
    | error error => rfl
    | ok bytes =>
      exact writePackets_message { request with buf := request.buf ++ bytes } fates conn

theorem writeLast_writes (hclean : conn.transport.Clean)
    (husable : conn.ensureNotPoisoned = .ok ())
    (hmessage : request.message < conn.transport.messages) (fates : List Fate) :
    ∃ frames, Writes conn request.message (request.writeLast fates conn).conn frames ∧
      Closed frames ∧ frames ≠ [] := by
  have hopen : conn.poison.transport.Clean := ⟨hclean.sink, hclean.frames⟩
  obtain ⟨frames, hsends, hclosed⟩ := Connection.writeLastPacket_sends request.message
    ((PacketHeader.bulkLoad request.packetId).setStatus .endOfMessage) request.buf fates hopen rfl
  obtain ⟨hwrites, -⟩ := Writes.bracket hsends husable hmessage
  rw [Attempt.andThen_assoc] at hwrites
  exact ⟨frames, hwrites, hclosed⟩

/-- The end of a bulk request: on a connection that can still be used the
message is closed. -/
theorem finalize_writes (hclean : conn.poisoned = false → conn.transport.Clean)
    (hmessage : request.message < conn.transport.messages) (hrange : conn.context.SizeInRange)
    (fates : List Fate) :
    ∃ frames, Writes conn request.message (request.finalize fates conn).conn frames ∧
      ((request.finalize fates conn).conn.ensureNotPoisoned = .ok () →
        Closed frames ∧ frames ≠ []) := by
  unfold finalize
  cases hguard : conn.ensureNotPoisoned with
  | error error =>
    refine ⟨[], .nothing _ rfl (Nat.le_refl _) id id id fun hclear => (hclean hclear).sink, ?_⟩
    intro hok
    simp only [Attempt.conn, hguard, reduceCtorEq] at hok
  | ok value =>
    have hclear := (Connection.not_poisoned_of_guard hguard).1
    simp only
    generalize hlonger : { request with buf := request.buf ++ defaultDoneBytes } = longer
    have hlonger_message : longer.message = request.message := by rw [← hlonger]
    obtain ⟨first, hfirst, hcases⟩ := @writePackets_writes conn longer (hclean hclear) hguard
      (by rw [hlonger_message]; exact hmessage) hrange fates
    have hsame := writePackets_message longer fates conn
    rw [hlonger_message] at hfirst hsame
    generalize longer.writePackets fates conn = written at hfirst hcases hsame ⊢
    obtain ⟨attempt, left, fates⟩ := written
    simp only at hfirst hcases hsame ⊢
    rcases hcases with ⟨hpoisoned, hstuck⟩ | ⟨middle, hmiddle, hmiddleguard⟩
    · rw [Attempt.andThen_of_not_ok _ hstuck]
      refine ⟨first, hfirst, fun hok => ?_⟩
      rw [(Connection.not_poisoned_of_guard hok).1] at hpoisoned
      cases hpoisoned
    · subst hmiddle
      have hmiddleclear := (Connection.not_poisoned_of_guard hmiddleguard).1
      obtain ⟨last, hlast, hclosed, hne⟩ := @writeLast_writes middle left
        (hfirst.clean hclean hmiddleclear) hmiddleguard
        (by rw [hsame]; exact Nat.lt_of_lt_of_le hmessage hfirst.messages_le) fates
      rw [hsame] at hlast
      exact ⟨first ++ last, hfirst.trans hguard hmiddleclear hlast, fun _ =>
        ⟨hclosed.append first hne, fun hnil => hne (List.append_eq_nil_iff.mp hnil).2⟩⟩

end BulkLoadRequest

/-- Reading writes nothing. -/
theorem Writes.of_reads {conn after : Connection} (message : ℕ) (hreads : conn.Reads after)
    (hclean : conn.poisoned = false → conn.transport.Clean) : Writes conn message after [] := by
  unfold Connection.Reads at hreads
  refine .nothing message ?_ ?_ ?_ ?_ ?_ ?_
  · rw [hreads]
    rfl
  · rw [hreads]
    exact Nat.le_refl _
  · rw [hreads]
    exact id
  · rw [hreads]
    exact id
  · rw [hreads]
    exact id
  · rw [hreads]
    exact fun hclear => (hclean hclear).sink

/-- The same after the flags are raised or the context has recorded a token. -/
theorem Writes.raise {conn middle after : Connection} {message : ℕ}
    (hwrites : Writes conn message middle []) (htransport : after.transport = middle.transport)
    (hpoisoned : middle.poisoned = true → after.poisoned = true)
    (hdesync : middle.commandDesync = true → after.commandDesync = true)
    (hrange : middle.context.SizeInRange → after.context.SizeInRange) :
    Writes conn message after [] where
  frames_eq := by rw [htransport, hwrites.frames_eq]
  message_eq := hwrites.message_eq
  messages_le := by rw [htransport]; exact hwrites.messages_le
  message_lt := fun frame hframe => absurd hframe List.not_mem_nil
  desync_of := fun h => hdesync (hwrites.desync_of h)
  range := fun h => hrange (hwrites.range h)
  poisoned_of := fun h => hpoisoned (hwrites.poisoned_of h)
  settled := by
    intro hclear
    have hmiddle : middle.poisoned = false := by
      cases hflag : middle.poisoned with
      | false => rfl
      | true =>
        rw [hpoisoned hflag] at hclear
        cases hclear
    rw [htransport]
    exact hwrites.settled hmiddle
  guarded := fun hne => absurd rfl hne

namespace Session

/-- What holds in every session, whatever is dropped: the packet size is in
range, a connection that is not poisoned is clean, and messages are numbered. -/
structure Kept (session : Session) : Prop where
  range : session.conn.context.SizeInRange
  clean : session.conn.poisoned = false → session.conn.transport.Clean
  numbered : ∀ frame ∈ session.conn.transport.frames,
    frame.message < session.conn.transport.messages
  bulk : ∀ request, session.bulk = some request →
    request.message < session.conn.transport.messages

/-- What one step of a session can do to what has been written. -/
inductive Effect (session : Session) (action : Action) (next : Session) : Prop where
  /-- Frames of a new message, closed unless the connection is left poisoned. -/
  | message (frames : List Frame) (hbulk : session.bulk = none) (hnext : next.bulk = none)
      (hwrites : Writes session.conn session.conn.transport.messages next.conn frames)
      (hclosed : next.conn.poisoned = false → Closed frames)
  /-- A bulk request is opened, and nothing is written yet. -/
  | opens (request : BulkLoadRequest) (hbulk : session.bulk = none)
      (hnext : next.bulk = some request)
      (hmessage : request.message = session.conn.transport.messages)
      (hlt : request.message < next.conn.transport.messages)
      (hwrites : Writes session.conn request.message next.conn [])
  /-- More frames of the bulk request that is open. -/
  | continues (frames : List Frame) (request left : BulkLoadRequest)
      (hbulk : session.bulk = some request) (hnext : next.bulk = some left)
      (hmessage : left.message = request.message)
      (hwrites : Writes session.conn request.message next.conn frames)
  /-- The bulk request is consumed. -/
  | closes (frames : List Frame) (request : BulkLoadRequest)
      (hbulk : session.bulk = some request) (hnext : next.bulk = none)
      (hwrites : Writes session.conn request.message next.conn frames)
      (hclosed : next.conn.ensureNotPoisoned = .ok () → Closed frames ∧ frames ≠ [])
  /-- The bulk request is dropped as it stands. -/
  | abandons (request : BulkLoadRequest) (haction : action = .bulkDrop)
      (hbulk : session.bulk = some request) (hnext : next = { session with bulk := none })

variable {session next : Session} {action : Action}

theorem onConnection_some {operation : Connection → Connection}
    (hstep : session.onConnection operation = some next) :
    session.bulk = none ∧ next = { session with conn := operation session.conn } := by
  unfold onConnection at hstep
  cases hbulk : session.bulk with
  | none =>
    rw [hbulk] at hstep
    cases hstep
    exact ⟨rfl, rfl⟩
  | some request =>
    rw [hbulk] at hstep
    cases hstep

/-- An operation of the connection that writes nothing. -/
private theorem effect_of_quiet {operation : Connection → Connection}
    (hstep : session.onConnection operation = some next)
    (hwrites : Writes session.conn session.conn.transport.messages (operation session.conn) []) :
    Effect session action next := by
  obtain ⟨hbulk, rfl⟩ := onConnection_some hstep
  exact .message [] hbulk hbulk hwrites fun _ => Or.inl rfl

theorem step_effect [EncodingRs] (hkept : session.Kept) (hstep : session.step action = some next) :
    Effect session action next := by
  cases action with
  | send header item fates =>
    simp only [step] at hstep
    obtain ⟨hbulk, rfl⟩ := onConnection_some hstep
    obtain ⟨frames, hwrites, hclosed⟩ := Connection.send_writes hkept.clean header item fates
    exact .message frames hbulk hbulk hwrites hclosed
  | sendSensitiveLogin header payload fates =>
    simp only [step] at hstep
    obtain ⟨hbulk, rfl⟩ := onConnection_some hstep
    obtain ⟨frames, hwrites, hclosed⟩ :=
      Connection.sendSensitiveLogin_writes hkept.clean header payload fates
    exact .message frames hbulk hbulk hwrites hclosed
  | sendAttention fates =>
    simp only [step] at hstep
    obtain ⟨hbulk, rfl⟩ := onConnection_some hstep
    obtain ⟨frames, hwrites, hclosed⟩ := Connection.sendAttention_writes hkept.clean fates
    exact .message frames hbulk hbulk hwrites fun _ => hclosed
  | bulkNew cmd =>
    cases hbulk : session.bulk with
    | some request => simp only [step, hbulk, reduceCtorEq] at hstep
    | none =>
      cases cmd with
      | error error =>
        simp only [step, hbulk, BulkLoadRequest.new, Option.some.injEq] at hstep
        subst hstep
        exact .message [] hbulk rfl (.nothing _ rfl (Nat.le_refl _) id id id
          fun hclear => (hkept.clean hclear).sink) fun _ => Or.inl rfl
      | ok buf =>
        simp only [step, hbulk, BulkLoadRequest.new, Option.some.injEq] at hstep
        subst hstep
        exact .opens _ hbulk rfl rfl (Nat.lt_succ_self _) (.nothing _ rfl (Nat.le_succ _) id id id
          fun hclear => (hkept.clean hclear).sink)
  | bulkSend row fates =>
    simp only [step] at hstep
    obtain ⟨request, hbulk, rfl⟩ := Option.map_eq_some_iff.mp hstep
    obtain ⟨frames, hwrites⟩ := BulkLoadRequest.send_writes hkept.clean (hkept.bulk request hbulk)
      hkept.range row fates
    exact .continues frames request _ hbulk rfl (request.send_message row fates session.conn)
      hwrites
  | bulkFinalize fates =>
    simp only [step] at hstep
    obtain ⟨request, hbulk, rfl⟩ := Option.map_eq_some_iff.mp hstep
    obtain ⟨frames, hwrites, hclosed⟩ := BulkLoadRequest.finalize_writes hkept.clean
      (hkept.bulk request hbulk) hkept.range fates
    exact .closes frames request hbulk rfl hwrites hclosed
  | bulkDrop =>
    simp only [step] at hstep
    obtain ⟨request, hbulk, rfl⟩ := Option.map_eq_some_iff.mp hstep
    exact .abandons request rfl hbulk rfl
  | flushStream =>
    obtain ⟨after, hreads, hconn⟩ := Connection.flushStream_reads session.conn
    have hwrites := Writes.of_reads session.conn.transport.messages hreads hkept.clean
    simp only [step] at hstep
    refine effect_of_quiet hstep ?_
    rcases hconn with hconn | hconn
    · rw [hconn]
      exact hwrites
    · rw [hconn]
      exact hwrites.raise rfl (fun _ => rfl) id id
  | read reader =>
    obtain ⟨after, hreads, hconn⟩ := (TokenStream.new session.conn).resume_reads reader
    have hwrites := Writes.of_reads session.conn.transport.messages hreads hkept.clean
    simp only [step] at hstep
    refine effect_of_quiet hstep ?_
    rcases hconn with hconn | ⟨token, context, hreceive, hconn⟩
    · rw [hconn]
      exact hwrites
    · rw [hconn]
      exact hwrites.raise rfl id id fun hrange => Context.receive_sizeInRange hrange hreceive
  | elapse timeout =>
    have hwrites := Writes.of_reads session.conn.transport.messages
      (Connection.Reads.refl session.conn) hkept.clean
    simp only [step] at hstep
    exact effect_of_quiet hstep (hwrites.raise rfl id (fun _ => rfl) id)
  | arrive packets ending =>
    cases hstep
    have hsink : session.conn.poisoned = false → session.conn.transport.sink = [] :=
      fun hclear => (hkept.clean hclear).sink
    cases hbulk : session.bulk with
    | none =>
      exact .message [] hbulk rfl (.nothing _ rfl (Nat.le_refl _) id id id hsink)
        fun _ => Or.inl rfl
    | some request =>
      exact .continues [] request request hbulk rfl rfl
        (.nothing _ rfl (Nat.le_refl _) id id id hsink)

private theorem kept_of_writes {message : ℕ} {frames : List Frame} (hkept : session.Kept)
    (hwrites : Writes session.conn message next.conn frames)
    (hbulk : ∀ request, next.bulk = some request →
      request.message < next.conn.transport.messages) : next.Kept where
  range := hwrites.range hkept.range
  clean := fun hclear => hwrites.clean hkept.clean hclear
  numbered := by
    intro frame hframe
    rw [hwrites.frames_eq, List.mem_append] at hframe
    rcases hframe with hold | hnew
    · exact Nat.lt_of_lt_of_le (hkept.numbered frame hold) hwrites.messages_le
    · exact hwrites.message_lt frame hnew
  bulk := hbulk

theorem Effect.kept (heffect : Effect session action next) (hkept : session.Kept) :
    next.Kept := by
  cases heffect with
  | message frames hbulk hnext hwrites hclosed =>
    refine kept_of_writes hkept hwrites fun request hrequest => ?_
    rw [hnext] at hrequest
    cases hrequest
  | opens request hbulk hnext hmessage hlt hwrites =>
    refine kept_of_writes hkept hwrites fun other hother => ?_
    rw [hnext] at hother
    cases hother
    exact hlt
  | continues frames request left hbulk hnext hmessage hwrites =>
    refine kept_of_writes hkept hwrites fun other hother => ?_
    rw [hnext] at hother
    cases hother
    rw [hmessage]
    exact Nat.lt_of_lt_of_le (hkept.bulk request hbulk) hwrites.messages_le
  | closes frames request hbulk hnext hwrites hclosed =>
    refine kept_of_writes hkept hwrites fun other hother => ?_
    rw [hnext] at hother
    cases hother
  | abandons request haction hbulk hnext =>
    subst hnext
    exact ⟨hkept.range, hkept.clean, hkept.numbered, fun other hother => by cases hother⟩

theorem new_kept (inbound : List Packet) (ending : Ending) : (new inbound ending).Kept where
  range := Context.new_sizeInRange
  clean := fun _ => ⟨rfl, fun frame hframe => absurd hframe List.not_mem_nil⟩
  numbered := fun frame hframe => absurd hframe List.not_mem_nil
  bulk := fun request hrequest => by cases hrequest

/-- Every run from a new connection keeps what must hold. -/
theorem reached_kept [EncodingRs] {inbound : List Packet} {ending : Ending}
    {Meets : Session → Action → Prop} (hreach : Reached step Meets (new inbound ending) session) :
    session.Kept :=
  hreach.keeps Kept (new_kept inbound ending) fun _ _ _ hkept _ hstep =>
    (step_effect hkept hstep).kept hkept

end Session

/-- On every connection that a run leaves usable, `send` writes the frames that
the login framer makes of the same payload: full packets that leave the message
open, and a last one that ends it. -/
theorem send_writes_login_frames [EncodingRs] {inbound : List Packet} {ending : Ending}
    {session : Session}
    (hreach : Reached Session.step (fun _ _ => True) (.new inbound ending) session)
    (husable : session.conn.ensureNotPoisoned = .ok ())
    (hlow : 512 ≤ session.conn.context.packetSize.toNat)
    (hhigh : session.conn.context.packetSize.toNat ≤ 32767)
    (header : PacketHeader) (payload : List UInt8) (hpayload : payload ≠ []) :
    ∃ (packets : List Packet) (after : Connection),
      session.conn.send header (.ok payload) [] = .returned (.ok ()) after ∧
      after.transport.wire = session.conn.transport.wire ++
        (packets.map fun packet => packet.encode []).flatten ∧
      Connection.frameSensitiveLogin header payload
          (session.conn.context.packetSize.toNat - headerBytes) =
        some (packets.map fun packet => packet.encode []) ∧
      packets.flatMap Packet.payload = payload ∧
      (∀ packet ∈ packets, packet.header = header.setStatus packet.header.status) ∧
      (∀ packet ∈ packets.dropLast, packet.header.status = .normalMessage ∧
        (packet.encode []).length = session.conn.context.packetSize.toNat) ∧
      (∃ last, packets.getLast? = some last ∧ last.header.status = .endOfMessage) ∧
      ∀ packet ∈ packets, Packet.lengthField (packet.encode []) = (packet.encode []).length := by
  have hclear := (Connection.not_poisoned_of_guard husable).1
  have hclean := (Session.reached_kept hreach).clean hclear
  have hrange : session.conn.context.SizeInRange := ⟨hlow, hhigh⟩
  obtain ⟨chunk, hchunk, hpos, hfull⟩ := hrange.chunkSize
  have hsize : session.conn.context.packetSize.toNat - headerBytes = chunk := by omega
  have hpieces : chunksOf chunk payload.length payload ≠ [] :=
    chunksOf_ne_nil hpayload (Nat.le_refl _)
  obtain ⟨after, hsend, hwire⟩ := Connection.send_completes husable hclean hchunk hpos header
    payload
  refine ⟨messagePackets header chunk payload, after, hsend, hwire, ?_, ?_, ?_, ?_, ?_, ?_⟩
  · rw [hsize]
    exact Connection.frameSensitiveLogin_eq hpos header payload
  · exact messagePackets_payload hpos header payload
  · exact packetsOf_header header _
  · intro packet hpacket
    obtain ⟨hstatus, hlength⟩ := messagePackets_dropLast header chunk payload packet hpacket
    refine ⟨hstatus, ?_⟩
    rw [Packet.encode_nil_length]
    omega
  · exact packetsOf_getLast header hpieces
  · intro packet hpacket
    have hlength := messagePackets_length_le header chunk payload packet hpacket
    refine Packet.lengthField_encode ?_
    rw [Packet.encode_nil_length]
    omega

/-- A batch of three packets behind another batch. -/
theorem send_writes_login_frames_batch :
    ∃ session, Reached (@Session.step .ascii) (fun _ _ => True) (.new [] .silent) session ∧
      session.conn.transport.wire = [1, 1, 0, 10, 0, 0, 1, 0, 0x41, 0] ∧
      ∃ (packets : List Packet) (after : Connection),
        session.conn.send (.batch 2) (.ok (List.replicate 9000 0)) [] =
          .returned (.ok ()) after ∧
        packets.length = 3 ∧ packets.flatMap Packet.payload = List.replicate 9000 0 := by
  have hreach : ∃ session,
      Reached (@Session.step .ascii) (fun _ _ => True) (.new [] .silent) session ∧
        session.conn.transport.wire = [1, 1, 0, 10, 0, 0, 1, 0, 0x41, 0] ∧
        session.conn.ensureNotPoisoned = .ok () ∧ session.conn.context.packetSize = 4096 :=
    ⟨_, .tail .refl ⟨.send (.batch 1) (.ok [0x41, 0]) [], trivial, rfl⟩, rfl, rfl, rfl⟩
  obtain ⟨session, hreach, hwire, husable, hsize⟩ := hreach
  obtain ⟨packets, after, hsend, -, hframes, hpayload, -⟩ :=
    @send_writes_login_frames .ascii [] .silent session hreach husable (by rw [hsize]; decide)
      (by rw [hsize]; decide) (.batch 2) (List.replicate 9000 0)
      (by rw [Ne, List.replicate_eq_nil_iff]; decide)
  refine ⟨session, hreach, hwire, packets, after, hsend, ?_, hpayload⟩
  have hcount : (Connection.frameSensitiveLogin (.batch 2) (List.replicate 9000 0) 4088).map
      List.length = some 3 := by
    decide +kernel
  rw [hsize] at hframes
  rw [show (4096 : UInt32).toNat - headerBytes = 4088 from rfl] at hframes
  rw [hframes, Option.map_some, List.length_map] at hcount
  exact Option.some.inj hcount

end Tiberius
