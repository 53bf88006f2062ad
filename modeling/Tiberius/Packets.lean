import Tiberius.BulkLoad
import Tiberius.Reading.Chunks

/-!
What the write loops put on the wire. Each loop is a sequence of writes to the
transport, and all writes of a connection have one shape: they hand frames of
their message to the transport and touch nothing else of the session. A loop
whose awaits all complete writes exactly the packets of its message.
-/

namespace Tiberius

open Reading

theorem Attempt.andThen_ok {attempt : Attempt} {next : Connection → Attempt} {after : Connection}
    (hthen : attempt.andThen next = .returned (.ok ()) after) :
    ∃ middle, attempt = .returned (.ok ()) middle ∧ next middle = .returned (.ok ()) after := by
  cases attempt with
  | returned result middle =>
    cases result with
    | ok value => exact ⟨middle, rfl, hthen⟩
    | error error =>
      simp only [andThen, returned.injEq, reduceCtorEq, false_and] at hthen
  | dropped middle => simp only [andThen, reduceCtorEq] at hthen
  | panicked middle => simp only [andThen, reduceCtorEq] at hthen
  | running middle => simp only [andThen, reduceCtorEq] at hthen

/-- A write that did not come back is not followed by anything. -/
theorem Attempt.andThen_of_not_ok {attempt : Attempt} (next : Connection → Attempt)
    (hfail : ∀ after, attempt ≠ .returned (.ok ()) after) : attempt.andThen next = attempt := by
  cases attempt with
  | returned result after =>
    cases result with
    | ok value => exact absurd rfl (hfail after)
    | error error => rfl
  | dropped after => rfl
  | panicked after => rfl
  | running after => rfl

/-- The connection after a write: only what a write changes is replaced. -/
def Connection.rewrite (conn : Connection) (flushed : Bool) (sink wire : List UInt8)
    (frames : List Frame) : Connection :=
  { conn with
    flushed := flushed
    transport := { conn.transport with sink := sink, wire := wire, frames := frames } }

theorem Connection.rewrite_of_eq {conn after : Connection} {flushed : Bool}
    {sink wire : List UInt8} {frames : List Frame}
    (hafter : after = conn.rewrite flushed sink wire frames) (flushed' : Bool)
    (sink' wire' : List UInt8) (frames' : List Frame) :
    after.rewrite flushed' sink' wire' frames' = conn.rewrite flushed' sink' wire' frames' := by
  subst hafter
  rfl

/-- Nothing waits in the sink and every frame has been written whole. -/
structure Transport.Clean (transport : Transport) : Prop where
  sink : transport.sink = []
  frames : ∀ frame ∈ transport.frames, frame.sent = frame.size

theorem Frame.credit_append (count : ℕ) (frames rest : List Frame)
    (hframes : ∀ frame ∈ frames, frame.sent = frame.size) :
    credit count (frames ++ rest) = frames ++ credit count rest := by
  induction frames with
  | nil => rfl
  | cons frame tail ih =>
    have hframe := hframes frame List.mem_cons_self
    have htail := ih fun f hf => hframes f (List.mem_cons_of_mem frame hf)
    simp only [List.cons_append, credit, hframe, Nat.sub_self, Nat.min_zero, Nat.add_zero,
      Nat.sub_zero, htail, List.cons.injEq, and_true]
    cases frame with
    | mk message last size sent =>
      cases hframe
      rfl

theorem Frame.credit_sizes (count : ℕ) (frames : List Frame) :
    (credit count frames).map Frame.size = frames.map Frame.size := by
  induction frames generalizing count with
  | nil => rfl
  | cons frame tail ih => simp only [credit, List.map_cons, ih]

/-- A write of frames of one message, none of them written only in part unless
the write did not return. -/
structure Sends (conn : Connection) (message : ℕ) (attempt : Attempt) (frames : List Frame) :
    Prop where
  conn_eq : attempt.conn = conn.rewrite attempt.conn.flushed attempt.conn.transport.sink
    attempt.conn.transport.wire (conn.transport.frames ++ frames)
  message_eq : ∀ frame ∈ frames, frame.message = message
  settled : ∀ after, attempt = .returned (.ok ()) after →
    after.transport.sink = [] ∧ ∀ frame ∈ frames, frame.sent = frame.size

namespace Sends

variable {conn after : Connection} {message : ℕ} {attempt : Attempt} {frames : List Frame}

theorem frames_eq (hsends : Sends conn message attempt frames) :
    attempt.conn.transport.frames = conn.transport.frames ++ frames := by
  rw [hsends.conn_eq]
  rfl

theorem poisoned_eq (hsends : Sends conn message attempt frames) :
    attempt.conn.poisoned = conn.poisoned := by
  rw [hsends.conn_eq]
  rfl

theorem clean (hsends : Sends conn message attempt frames) (hclean : conn.transport.Clean)
    (hdone : attempt = .returned (.ok ()) after) : after.transport.Clean := by
  obtain ⟨hsink, hframes⟩ := hsends.settled after hdone
  have heq := hsends.frames_eq
  rw [hdone] at heq
  refine ⟨hsink, fun frame hframe => ?_⟩
  rw [show after.transport.frames = conn.transport.frames ++ frames from heq,
    List.mem_append] at hframe
  rcases hframe with hold | hnew
  · exact hclean.frames frame hold
  · exact hframes frame hnew

/-- A write that did not come back stays what it is, and one that did is
followed by the next. -/
theorem andThen (hsends : Sends conn message attempt frames) (next : Connection → Attempt)
    (more : Connection → List Frame)
    (hnext : ∀ after, attempt = .returned (.ok ()) after →
      Sends after message (next after) (more after)) :
    ∃ all, Sends conn message (attempt.andThen next) all ∧
      (∀ after, attempt = .returned (.ok ()) after → all = frames ++ more after) := by
  by_cases hdone : ∃ after, attempt = .returned (.ok ()) after
  · obtain ⟨after, rfl⟩ := hdone
    have hthen := hnext after rfl
    refine ⟨frames ++ more after, ⟨?_, ?_, ?_⟩, ?_⟩
    · have hframes : after.transport.frames = conn.transport.frames ++ frames := hsends.frames_eq
      calc
        (next after).conn = after.rewrite _ _ _ (after.transport.frames ++ more after) :=
          hthen.conn_eq
        _ = after.rewrite _ _ _ (conn.transport.frames ++ (frames ++ more after)) := by
          rw [hframes, List.append_assoc]
          rfl
        _ = conn.rewrite _ _ _ _ := Connection.rewrite_of_eq hsends.conn_eq _ _ _ _
    · intro frame hframe
      rcases List.mem_append.mp hframe with hold | hnew
      · exact hsends.message_eq frame hold
      · exact hthen.message_eq frame hnew
    · intro last hlast
      obtain ⟨hsink, hmore⟩ := hthen.settled last hlast
      refine ⟨hsink, fun frame hframe => ?_⟩
      rcases List.mem_append.mp hframe with hold | hnew
      · exact (hsends.settled after rfl).2 frame hold
      · exact hmore frame hnew
    · intro other hother
      simp only [Attempt.returned.injEq, true_and] at hother
      rw [hother]
  · have hsame := Attempt.andThen_of_not_ok next fun after hafter => hdone ⟨after, hafter⟩
    refine ⟨frames, by rw [hsame]; exact hsends, ?_⟩
    intro after hafter
    exact absurd ⟨after, hafter⟩ hdone

end Sends

namespace Transport

theorem advance_clean {transport : Transport} (hclean : transport.Clean) (count : ℕ) :
    transport.advance count = transport := by
  have hcredit := Frame.credit_append (min count transport.sink.length) transport.frames []
    hclean.frames
  simp only [List.append_nil, Frame.credit] at hcredit
  simp only [advance, hcredit]
  simp only [hclean.sink, List.drop_nil, List.take_nil, List.append_nil]
  rw [← hclean.sink]

/-- A packet handed to a clean transport is the only frame the bytes that reach
the wire belong to. -/
theorem advance_enqueue {transport : Transport} (hclean : transport.Clean) (message : ℕ)
    (packet : Packet) (count : ℕ) :
    (transport.enqueue message packet).advance count =
      { transport with
        sink := (packet.encode []).drop count
        wire := transport.wire ++ (packet.encode []).take count
        frames := transport.frames ++
          [{ message := message
             last := packet.isLast
             size := headerBytes + packet.payload.length
             sent := min count (headerBytes + packet.payload.length) }] } := by
  have hlength : (packet.encode []).length = headerBytes + packet.payload.length := by
    rw [Packet.encode_length, List.length_nil, Nat.zero_add]
  simp only [advance, enqueue, hclean.sink, hlength]
  rw [Frame.credit_append _ _ _ hclean.frames]
  simp only [Frame.credit, Nat.sub_zero, Nat.zero_add, Nat.min_assoc, Nat.min_self]

end Transport

namespace Connection

variable {conn : Connection}

/-- A flush of an empty sink moves nothing. -/
theorem flushSink_clean (fate : Fate) (hclean : conn.transport.Clean) :
    conn.flushSink fate =
      match fate with
      | .completes => .returned (.ok ()) conn
      | .fails error _ => .returned (.error error) conn
      | .dropped _ => .dropped conn := by
  cases fate <;> simp only [flushSink, Transport.advance_clean hclean]

theorem flushSink_sends (message : ℕ) (fate : Fate) (hclean : conn.transport.Clean) :
    Sends conn message (conn.flushSink fate) [] := by
  rw [flushSink_clean fate hclean]
  refine ⟨?_, ?_, ?_⟩
  · cases fate <;> simp only [Attempt.conn, rewrite, List.append_nil]
  · intro frame hframe
    exact absurd hframe List.not_mem_nil
  · intro after hafter
    refine ⟨?_, fun frame hframe => absurd hframe List.not_mem_nil⟩
    cases fate with
    | completes =>
      simp only [Attempt.returned.injEq, true_and] at hafter
      rw [← hafter]
      exact hclean.sink
    | fails error written =>
      simp only [Attempt.returned.injEq, reduceCtorEq, false_and] at hafter
    | dropped written => simp only [reduceCtorEq] at hafter

/-- The frame a write of one packet leaves behind. -/
def sentFrame (message : ℕ) (packet : Packet) (fate : Fate) : Frame where
  message := message
  last := packet.isLast
  size := headerBytes + packet.payload.length
  sent :=
    match fate with
    | .completes => headerBytes + packet.payload.length
    | .fails _ written | .dropped written => min written (headerBytes + packet.payload.length)

theorem writeToWire_sends (message : ℕ) (header : PacketHeader) (data : List UInt8) (fate : Fate)
    (hclean : conn.transport.Clean) :
    Sends conn message (conn.writeToWire message header data fate)
      [sentFrame message { header := header, payload := data } fate] := by
  have hlength : (Packet.encode { header := header, payload := data } []).length =
      headerBytes + data.length := by
    rw [Packet.encode_length, List.length_nil, Nat.zero_add]
  have hsink : (conn.transport.enqueue message { header := header, payload := data }).sink =
      Packet.encode { header := header, payload := data } [] := by
    simp only [Transport.enqueue, hclean.sink]
  refine ⟨?_, ?_, ?_⟩
  · cases fate with
    | completes =>
      simp only [writeToWire, flushSink, Attempt.conn, hsink, Transport.advance_enqueue hclean,
        rewrite, sentFrame, hlength, Nat.min_self]
    | fails error written =>
      simp only [writeToWire, flushSink, Attempt.conn, Transport.advance_enqueue hclean, rewrite,
        sentFrame]
    | dropped written =>
      simp only [writeToWire, flushSink, Attempt.conn, Transport.advance_enqueue hclean, rewrite,
        sentFrame]
  · intro frame hframe
    rw [List.mem_singleton.mp hframe]
    rfl
  · intro after hafter
    cases fate with
    | completes =>
      simp only [writeToWire, flushSink, Attempt.returned.injEq, true_and, hsink,
        Transport.advance_enqueue hclean] at hafter
      rw [← hafter]
      refine ⟨List.drop_length, fun frame hframe => ?_⟩
      rw [List.mem_singleton.mp hframe]
      rfl
    | fails error written =>
      simp only [writeToWire, flushSink, Attempt.returned.injEq, reduceCtorEq, false_and] at hafter
    | dropped written => simp only [writeToWire, flushSink, reduceCtorEq] at hafter

end Connection

/-- The frames of a message that ends: none at all, or the last one is marked. -/
def Closed (frames : List Frame) : Prop :=
  frames = [] ∨ ∃ frame, frames.getLast? = some frame ∧ frame.last = true

theorem Closed.append {frames : List Frame} (first : List Frame) (hclosed : Closed frames)
    (hne : frames ≠ []) : Closed (first ++ frames) := by
  rcases hclosed with hnil | ⟨frame, hlast, hmark⟩
  · exact absurd hnil hne
  · exact Or.inr ⟨frame, by rw [List.getLast?_append, hlast]; rfl, hmark⟩

namespace Connection

variable {conn : Connection}

/-- The frames of `send`: a loop that comes back has closed its message. -/
theorem sendLoop_sends (message chunk fuel : ℕ) (header : PacketHeader) (payload : List UInt8)
    (fates : List Fate) (hclean : conn.transport.Clean) :
    ∃ frames, Sends conn message (sendLoop message chunk fuel header payload fates conn) frames ∧
      ∀ after, sendLoop message chunk fuel header payload fates conn = .returned (.ok ()) after →
        Closed frames ∧ (payload ≠ [] → frames ≠ []) := by
  induction fuel generalizing header payload fates conn with
  | zero =>
    refine ⟨[], ⟨?_, ?_, ?_⟩, ?_⟩
    · simp only [sendLoop, Attempt.conn, rewrite, List.append_nil]
    · exact fun frame hframe => absurd hframe List.not_mem_nil
    · intro after hafter
      simp only [sendLoop, reduceCtorEq] at hafter
    · intro after hafter
      simp only [sendLoop, reduceCtorEq] at hafter
  | succ fuel ih =>
    by_cases hpayload : payload = []
    · subst hpayload
      have hloop : sendLoop message chunk (fuel + 1) header [] fates conn =
          flushSink (fates.headD .completes) conn := rfl
      rw [hloop]
      exact ⟨[], flushSink_sends message _ hclean, fun _ _ =>
        ⟨Or.inl rfl, fun h => absurd rfl h⟩⟩
    · have hempty : payload.isEmpty = false := by
        simpa only [List.isEmpty_eq_false_iff] using hpayload
      generalize hrest : payload.drop (min payload.length chunk) = rest
      generalize hheader :
        header.setStatus (if rest.isEmpty then .endOfMessage else .normalMessage) = next
      have hloop : sendLoop message chunk (fuel + 1) header payload fates conn =
          (writeToWire message next (payload.take (min payload.length chunk))
            (fates.headD .completes) conn).andThen
            fun conn => sendLoop message chunk fuel next rest fates.tail conn := by
        simp only [sendLoop, hempty, Bool.false_eq_true, if_false, hrest, hheader]
      rw [hloop]
      have hwrite := writeToWire_sends message next (payload.take (min payload.length chunk))
        (fates.headD .completes) hclean
      generalize hattempt : writeToWire message next (payload.take (min payload.length chunk))
        (fates.headD .completes) conn = attempt at hwrite ⊢
      choose! more hmore hclosed using fun after
          (hafter : attempt = .returned (.ok ()) after) =>
        ih next rest fates.tail (hwrite.clean hclean hafter)
      obtain ⟨all, hall, hsplit⟩ := hwrite.andThen _ more hmore
      refine ⟨all, hall, fun after hafter => ?_⟩
      obtain ⟨middle, hmiddle, hthen⟩ := Attempt.andThen_ok hafter
      obtain ⟨hrestclosed, hrestne⟩ := hclosed middle hmiddle after hthen
      rw [hsplit middle hmiddle]
      refine ⟨?_, fun _ => List.cons_ne_nil _ _⟩
      by_cases hnil : more middle = []
      · have hrestnil : rest = [] := by
          by_contra hne
          exact hrestne hne hnil
        rw [hnil, List.append_nil]
        refine Or.inr ⟨_, rfl, ?_⟩
        rw [← hheader, hrestnil]
        rfl
      · exact hrestclosed.append _ hnil

theorem writeAll_sends (message : ℕ) (last : Bool) (frame : List UInt8) (fate : Fate)
    (hclean : conn.transport.Clean) :
    ∃ sent, Sends conn message (conn.writeAll message last frame fate)
      [{ message := message, last := last, size := frame.length, sent := sent }] := by
  cases fate with
  | completes =>
    refine ⟨frame.length, ⟨?_, ?_, ?_⟩⟩
    · simp only [writeAll, Attempt.conn, Transport.writeThrough, Nat.min_self, rewrite]
    · intro sent hsent
      rw [List.mem_singleton.mp hsent]
    · intro after hafter
      simp only [writeAll, Attempt.returned.injEq, true_and] at hafter
      rw [← hafter]
      refine ⟨hclean.sink, fun sent hsent => ?_⟩
      rw [List.mem_singleton.mp hsent]
  | fails error written =>
    refine ⟨min written frame.length, ⟨?_, ?_, ?_⟩⟩
    · simp only [writeAll, Attempt.conn, Transport.writeThrough, rewrite]
    · intro sent hsent
      rw [List.mem_singleton.mp hsent]
    · intro after hafter
      simp only [writeAll, Attempt.returned.injEq, reduceCtorEq, false_and] at hafter
  | dropped written =>
    refine ⟨min written frame.length, ⟨?_, ?_, ?_⟩⟩
    · simp only [writeAll, Attempt.conn, Transport.writeThrough, rewrite]
    · intro sent hsent
      rw [List.mem_singleton.mp hsent]
    · intro after hafter
      simp only [writeAll, reduceCtorEq] at hafter

theorem flushStreamBelow_sends (message : ℕ) (fate : Fate) (hclean : conn.transport.Clean) :
    Sends conn message (conn.flushStreamBelow fate) [] := by
  have hflush : conn.flushStreamBelow fate = conn.flushSink fate := by
    rw [flushSink_clean fate hclean]
    rfl
  rw [hflush]
  exact flushSink_sends message fate hclean

/-- The frames of a login: the last one handed over closes the message. -/
theorem writeFrames_sends (message : ℕ) (frames : List (List UInt8)) (fates : List Fate)
    (hclean : conn.transport.Clean) :
    ∃ sent, Sends conn message (writeFrames message frames fates conn) sent ∧
      ∀ after, writeFrames message frames fates conn = .returned (.ok ()) after →
        Closed sent ∧ (frames ≠ [] → sent ≠ []) := by
  induction frames generalizing fates conn with
  | nil =>
    exact ⟨[], flushStreamBelow_sends message _ hclean, fun _ _ =>
      ⟨Or.inl rfl, fun h => absurd rfl h⟩⟩
  | cons frame rest ih =>
    obtain ⟨count, hwrite⟩ := writeAll_sends message rest.isEmpty frame (fates.headD .completes)
      hclean
    have hloop : writeFrames message (frame :: rest) fates conn =
        (writeAll message rest.isEmpty frame (fates.headD .completes) conn).andThen fun conn =>
          writeFrames message rest fates.tail conn := rfl
    rw [hloop]
    generalize hattempt : writeAll message rest.isEmpty frame (fates.headD .completes) conn =
      attempt at hwrite ⊢
    choose! more hmore hclosed using fun after (hafter : attempt = .returned (.ok ()) after) =>
      ih fates.tail (hwrite.clean hclean hafter)
    obtain ⟨all, hall, hsplit⟩ := hwrite.andThen _ more hmore
    refine ⟨all, hall, fun after hafter => ?_⟩
    obtain ⟨middle, hmiddle, hthen⟩ := Attempt.andThen_ok hafter
    obtain ⟨hrestclosed, hrestne⟩ := hclosed middle hmiddle after hthen
    rw [hsplit middle hmiddle]
    refine ⟨?_, fun _ => List.cons_ne_nil _ _⟩
    by_cases hnil : more middle = []
    · have hrest : rest = [] := by
        by_contra hne
        exact hrestne hne hnil
      rw [hnil, List.append_nil]
      exact Or.inr ⟨_, rfl, by rw [hrest]; rfl⟩
    · exact hrestclosed.append _ hnil

end Connection

namespace BulkLoadRequest

variable {conn : Connection}

/-- One turn of the loop writes one packet of the open message. -/
theorem writeLoop_succ {chunk : ℕ} (fuel : ℕ) {request : BulkLoadRequest} (fates : List Fate)
    (conn : Connection) (hlong : chunk < request.buf.length) :
    (writeLoop chunk (fuel + 1) request fates conn).1 =
      (conn.writeToWire request.message (.bulkLoad request.packetId) (request.buf.take chunk)
        (fates.headD .completes)).andThen fun conn =>
          (writeLoop chunk fuel { request with buf := request.buf.drop chunk } fates.tail conn).1
      := by
  rw [writeLoop, if_neg (Nat.not_le.mpr hlong)]
  simp only
  cases hattempt : conn.writeToWire request.message (.bulkLoad request.packetId)
      (request.buf.take chunk) (fates.headD .completes) with
  | returned result middle => cases result <;> rfl
  | dropped middle => rfl
  | panicked middle => rfl
  | running middle => rfl

theorem writeLoop_message (chunk fuel : ℕ) (request : BulkLoadRequest) (fates : List Fate)
    (conn : Connection) :
    (writeLoop chunk fuel request fates conn).2.1.message = request.message := by
  induction fuel generalizing request fates conn with
  | zero => rfl
  | succ fuel ih =>
    rw [writeLoop]
    split
    · rfl
    · simp only
      cases hattempt : conn.writeToWire request.message (.bulkLoad request.packetId)
          (request.buf.take chunk) (fates.headD .completes) with
      | returned result middle =>
        cases result with
        | ok value => exact ih { request with buf := request.buf.drop chunk } fates.tail middle
        | error error => rfl
      | dropped middle => rfl
      | panicked middle => rfl
      | running middle => rfl

/-- The frames of an open bulk request. -/
theorem writeLoop_sends (chunk fuel : ℕ) (request : BulkLoadRequest) (fates : List Fate)
    (hclean : conn.transport.Clean) :
    ∃ sent, Sends conn request.message (writeLoop chunk fuel request fates conn).1 sent := by
  induction fuel generalizing request fates conn with
  | zero =>
    refine ⟨[], ⟨?_, ?_, ?_⟩⟩
    · simp only [writeLoop, Attempt.conn, Connection.rewrite, List.append_nil]
    · exact fun frame hframe => absurd hframe List.not_mem_nil
    · intro after hafter
      simp only [writeLoop, reduceCtorEq] at hafter
  | succ fuel ih =>
    by_cases hshort : request.buf.length ≤ chunk
    · simp only [writeLoop, hshort, if_true]
      refine ⟨[], ⟨?_, ?_, ?_⟩⟩
      · simp only [Attempt.conn, Connection.rewrite, List.append_nil]
      · exact fun frame hframe => absurd hframe List.not_mem_nil
      · intro after hafter
        simp only [Attempt.returned.injEq, true_and] at hafter
        exact ⟨by rw [← hafter]; exact hclean.sink,
          fun frame hframe => absurd hframe List.not_mem_nil⟩
    · have hwrite := Connection.writeToWire_sends request.message (.bulkLoad request.packetId)
        (request.buf.take chunk) (fates.headD .completes) hclean
      rw [writeLoop_succ fuel fates conn (Nat.lt_of_not_le hshort)]
      generalize hattempt : conn.writeToWire request.message (.bulkLoad request.packetId)
        (request.buf.take chunk) (fates.headD .completes) = attempt at hwrite ⊢
      choose! more hmore using fun after (hafter : attempt = .returned (.ok ()) after) =>
        ih { request with buf := request.buf.drop chunk } fates.tail (hwrite.clean hclean hafter)
      obtain ⟨all, hall, -⟩ := hwrite.andThen _ more hmore
      exact ⟨all, hall⟩

end BulkLoadRequest

end Tiberius
