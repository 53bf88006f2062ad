import Tiberius.Exchange
import Tiberius.PacketCodec

/-!
The bytes of a message on the wire. Whatever becomes of the awaits of a write, what
it has added to the wire is a first part of its packets, and all of them where it
has returned. A write touches the writing half of a connection and nothing else.
-/

namespace Tiberius

open PacketCodec Reading

/-- The bytes that a connection makes of a payload. -/
def Connection.messageBytes (conn : Connection) (header : PacketHeader) (payload : List UInt8) :
    List UInt8 :=
  encoded (messagePackets header (conn.context.packetSize.toNat - headerBytes) payload)

/-- A write of bytes to the wire, of all of them or of a first part. -/
structure Puts (conn : Connection) (bytes : List UInt8) (attempt : Attempt) : Prop where
  begun : ∃ part, part <+: bytes ∧ attempt.conn.transport.wire = conn.transport.wire ++ part
  whole : ∀ after, attempt = .returned (.ok ()) after →
    after.transport.wire = conn.transport.wire ++ bytes

namespace Puts

variable {conn : Connection} {bytes more : List UInt8} {attempt : Attempt}

theorem nothing (bytes : List UInt8) (hwire : attempt.conn.transport.wire = conn.transport.wire)
    (hfail : ∀ after, attempt ≠ .returned (.ok ()) after) : Puts conn bytes attempt where
  begun := ⟨[], List.nil_prefix, by rw [hwire, List.append_nil]⟩
  whole := fun after hafter => absurd hafter (hfail after)

theorem empty (hwire : attempt.conn.transport.wire = conn.transport.wire) :
    Puts conn [] attempt where
  begun := ⟨[], List.nil_prefix, by rw [hwire, List.append_nil]⟩
  whole := by
    rintro after rfl
    rw [List.append_nil]
    exact hwire

theorem andThen (hputs : Puts conn bytes attempt) {next : Connection → Attempt}
    (hnext : ∀ after, attempt = .returned (.ok ()) after → Puts after more (next after)) :
    Puts conn (bytes ++ more) (attempt.andThen next) := by
  by_cases hdone : ∃ after, attempt = .returned (.ok ()) after
  · obtain ⟨after, rfl⟩ := hdone
    have hwire := hputs.whole after rfl
    obtain ⟨part, hpart, hbegun⟩ := (hnext after rfl).begun
    refine ⟨⟨bytes ++ part, (List.prefix_append_right_inj bytes).mpr hpart, ?_⟩, ?_⟩
    · change (next after).conn.transport.wire = _
      rw [hbegun, hwire, List.append_assoc]
    · intro final hfinal
      rw [(hnext after rfl).whole final hfinal, hwire, List.append_assoc]
  · rw [Attempt.andThen_of_not_ok next fun after hafter => hdone ⟨after, hafter⟩]
    obtain ⟨part, hpart, hbegun⟩ := hputs.begun
    exact ⟨⟨part, hpart.trans (List.prefix_append bytes more), hbegun⟩,
      fun after hafter => absurd ⟨after, hafter⟩ hdone⟩

theorem of_wire (other : Connection) (hputs : Puts other bytes attempt)
    (hwire : other.transport.wire = conn.transport.wire) : Puts conn bytes attempt := by
  obtain ⟨hbegun, hwhole⟩ := hputs
  rw [hwire] at hbegun hwhole
  exact ⟨hbegun, hwhole⟩

theorem bracket (hputs : Puts conn bytes attempt) :
    Puts conn bytes (attempt.andThen fun conn => .returned (.ok ()) conn.unpoison) := by
  have hthen := @andThen conn bytes [] attempt hputs
    (fun conn => .returned (.ok ()) conn.unpoison) fun after _ => empty rfl
  rwa [List.append_nil] at hthen

end Puts

namespace Connection

variable {conn : Connection}

/-- A packet that is flushed in part stands on the wire in part. -/
theorem writeToWire_puts (message : ℕ) (header : PacketHeader) (data : List UInt8) (fate : Fate)
    (hclean : conn.transport.Clean) :
    Puts conn (Packet.encode { header := header, payload := data } [])
      (conn.writeToWire message header data fate) := by
  have hsink : (conn.transport.enqueue message { header := header, payload := data }).sink =
      Packet.encode { header := header, payload := data } [] := by
    simp only [Transport.enqueue, hclean.sink]
  cases fate with
  | completes =>
    rw [writeToWire_completes message header data hclean]
    refine ⟨⟨_, List.prefix_rfl, rfl⟩, fun after hafter => ?_⟩
    simp only [Attempt.returned.injEq, true_and] at hafter
    rw [← hafter]
    rfl
  | fails error written =>
    refine ⟨⟨_, List.take_prefix written _, ?_⟩, fun after hafter => ?_⟩
    · rw [← hsink]
      rfl
    · simp only [writeToWire, flushSink, Attempt.returned.injEq, reduceCtorEq, false_and] at hafter
  | dropped written =>
    refine ⟨⟨_, List.take_prefix written _, ?_⟩, fun after hafter => ?_⟩
    · rw [← hsink]
      rfl
    · simp only [writeToWire, flushSink, reduceCtorEq] at hafter

theorem flushSink_puts (fate : Fate) (hclean : conn.transport.Clean) :
    Puts conn [] (conn.flushSink fate) := by
  rw [flushSink_clean fate hclean]
  cases fate <;> exact .empty rfl

/-- The packet loop of `send`, by the pieces of the payload. -/
theorem sendLoop_puts {chunk : ℕ} (hchunk : 0 < chunk) (message fuel : ℕ) (header : PacketHeader)
    (payload : List UInt8) (fates : List Fate) (hclean : conn.transport.Clean)
    (hfuel : payload.length ≤ fuel) :
    Puts conn (encoded (packetsOf header (chunksOf chunk fuel payload)))
      (sendLoop message chunk (fuel + 1) header payload fates conn) := by
  induction fuel generalizing header payload fates conn with
  | zero =>
    have hnil : payload = [] := List.length_eq_zero_iff.mp (Nat.le_zero.mp hfuel)
    subst hnil
    rw [chunksOf_nil]
    exact flushSink_puts _ hclean
  | succ fuel ih =>
    by_cases hpayload : payload = []
    · subst hpayload
      rw [chunksOf_nil]
      exact flushSink_puts _ hclean
    · have hpos := List.length_pos_iff.mpr hpayload
      have hlength : (payload.drop chunk).length ≤ fuel := by
        rw [List.length_drop]
        omega
      have hpiece : payload.take (min payload.length chunk) = payload.take chunk := by
        rw [Nat.min_comm, ← List.take_eq_take_min]
      have hrest : payload.drop (min payload.length chunk) = payload.drop chunk := by
        rw [Nat.min_comm, ← List.drop_eq_drop_min]
      generalize hheader : header.setStatus
        (if (payload.drop chunk).isEmpty then .endOfMessage else .normalMessage) = next
      have hloop : sendLoop message chunk (fuel + 1 + 1) header payload fates conn =
          (writeToWire message next (payload.take chunk) (fates.headD .completes) conn).andThen
            fun conn => sendLoop message chunk (fuel + 1) next (payload.drop chunk) fates.tail
              conn := by
        rw [sendLoop]
        simp only [List.isEmpty_eq_false_iff.mpr hpayload, Bool.false_eq_true, if_false, hpiece,
          hrest, hheader]
      have hpackets : packetsOf header (chunksOf chunk (fuel + 1) payload) =
          { header := next, payload := payload.take chunk } ::
            packetsOf next (chunksOf chunk fuel (payload.drop chunk)) := by
        rw [chunksOf_succ _ _ hpayload, packetsOf, chunksOf_isEmpty hlength, ← hheader,
          packetsOf_setStatus]
      rw [hloop, hpackets, encoded, List.flatMap_cons]
      have hsends := writeToWire_sends message next (payload.take chunk) (fates.headD .completes)
        hclean
      exact (writeToWire_puts message next _ _ hclean).andThen fun after hafter =>
        ih next (payload.drop chunk) fates.tail (hsends.clean hclean hafter) hlength

theorem chunk_of_range (hrange : conn.context.SizeInRange) :
    conn.context.chunkSize = some (conn.context.packetSize.toNat - headerBytes) ∧
      0 < conn.context.packetSize.toNat - headerBytes := by
  obtain ⟨chunk, hchunk, hpos, hsize⟩ := hrange.chunkSize
  have heq : conn.context.packetSize.toNat - headerBytes = chunk := by omega
  rw [heq]
  exact ⟨hchunk, hpos⟩

theorem payload_pos {context : Context} (hrange : context.SizeInRange) :
    0 < context.packetSize.toNat - headerBytes := by
  have hsize := hrange.1
  rw [headerBytes]
  omega

/-- `send` of a payload, whatever becomes of its awaits. -/
theorem send_puts (hrange : conn.context.SizeInRange) (hclean : conn.poisoned = false →
    conn.transport.Clean) (header : PacketHeader) (payload : List UInt8) (fates : List Fate) :
    Puts conn (conn.messageBytes header payload) (conn.send header (.ok payload) fates) := by
  obtain ⟨hchunk, hpos⟩ := chunk_of_range hrange
  unfold send
  cases hguard : conn.ensureNotPoisoned with
  | error error => exact .nothing _ rfl fun after => by simp only [ne_eq, Attempt.returned.injEq,
      reduceCtorEq, false_and, not_false_eq_true]
  | ok value =>
    have hopen := hclean (not_poisoned_of_guard hguard).1
    simp only [hchunk]
    refine Puts.bracket (.of_wire (openMessage { conn with flushed := false }).2.poison ?_ rfl)
    exact sendLoop_puts hpos _ _ header payload fates ⟨hopen.sink, hopen.frames⟩ (Nat.le_refl _)

theorem writeAll_puts (message : ℕ) (last : Bool) (frame : List UInt8) (fate : Fate) :
    Puts conn frame (conn.writeAll message last frame fate) := by
  cases fate with
  | completes =>
    refine ⟨⟨frame, List.prefix_rfl, ?_⟩, fun after hafter => ?_⟩
    · simp only [writeAll, Attempt.conn, Transport.writeThrough, List.take_length]
    · simp only [writeAll, Transport.writeThrough, List.take_length, Attempt.returned.injEq,
        true_and] at hafter
      rw [← hafter]
  | fails error written =>
    refine ⟨⟨_, List.take_prefix written frame, rfl⟩, fun after hafter => ?_⟩
    simp only [writeAll, Attempt.returned.injEq, reduceCtorEq, false_and] at hafter
  | dropped written =>
    refine ⟨⟨_, List.take_prefix written frame, rfl⟩, fun after hafter => ?_⟩
    simp only [writeAll, reduceCtorEq] at hafter

theorem writeFrames_puts (message : ℕ) (frames : List (List UInt8)) (fates : List Fate) :
    Puts conn frames.flatten (conn.writeFrames message frames fates) := by
  induction frames generalizing fates conn with
  | nil =>
    cases hfate : fates.headD .completes <;>
      simp only [writeFrames, flushStreamBelow, hfate] <;> exact .empty rfl
  | cons frame rest ih =>
    rw [writeFrames, List.flatten_cons]
    exact (writeAll_puts message _ frame _).andThen fun after _ => ih fates.tail

theorem sendSensitiveLogin_puts (hrange : conn.context.SizeInRange) (header : PacketHeader)
    (payload : List UInt8) (fates : List Fate) :
    Puts conn (conn.messageBytes header payload)
      (conn.sendSensitiveLogin header payload fates) := by
  obtain ⟨hchunk, hpos⟩ := chunk_of_range hrange
  unfold sendSensitiveLogin
  cases hguard : conn.ensureNotPoisoned with
  | error error => exact .nothing _ rfl fun after => by simp only [ne_eq, Attempt.returned.injEq,
      reduceCtorEq, false_and, not_false_eq_true]
  | ok value =>
    simp only [hchunk, frameSensitiveLogin_eq hpos]
    refine Puts.bracket (.of_wire (openMessage { conn with flushed := false }).2.poison ?_ rfl)
    rw [messageBytes, encoded, List.flatMap_def]
    exact writeFrames_puts _ _ fates

theorem writeFrames_wrote (message : ℕ) (frames : List (List UInt8)) (fates : List Fate)
    (hflushed : conn.flushed = false) : conn.Wrote (conn.writeFrames message frames fates).conn := by
  induction frames generalizing fates conn with
  | nil =>
    cases hfate : fates.headD .completes <;>
      simp only [writeFrames, flushStreamBelow, hfate] <;>
      exact ⟨rfl, rfl, rfl, rfl, rfl, rfl, hflushed⟩
  | cons frame rest ih =>
    have hwrote : conn.Wrote
        (conn.writeAll message rest.isEmpty frame (fates.headD .completes)).conn := by
      cases fates.headD .completes <;> exact ⟨rfl, rfl, rfl, rfl, rfl, rfl, hflushed⟩
    rw [writeFrames]
    generalize conn.writeAll message rest.isEmpty frame (fates.headD .completes) = attempt at hwrote ⊢
    by_cases hdone : ∃ after, attempt = .returned (.ok ()) after
    · obtain ⟨after, rfl⟩ := hdone
      exact hwrote.trans (ih fates.tail hwrote.flushed)
    · rw [Attempt.andThen_of_not_ok _ fun after hafter => hdone ⟨after, hafter⟩]
      exact hwrote

/-- A login that has been sent has left the connection usable. -/
theorem sendSensitiveLogin_wrote {header : PacketHeader} {payload : List UInt8}
    {fates : List Fate} {after : Connection}
    (hsend : conn.sendSensitiveLogin header payload fates = .returned (.ok ()) after) :
    conn.Wrote after := by
  unfold sendSensitiveLogin at hsend
  cases hguard : conn.ensureNotPoisoned with
  | error error => simp only [hguard, Attempt.returned.injEq, reduceCtorEq, false_and] at hsend
  | ok value =>
    have hclear := (not_poisoned_of_guard hguard).1
    simp only [hguard] at hsend
    cases hchunk : conn.context.chunkSize with
    | none => simp only [hchunk, reduceCtorEq] at hsend
    | some chunk =>
      simp only [hchunk] at hsend
      cases hframes : frameSensitiveLogin header payload chunk with
      | none => simp only [hframes, reduceCtorEq] at hsend
      | some frames =>
        simp only [hframes] at hsend
        obtain ⟨middle, hmiddle, hback⟩ := Attempt.andThen_ok hsend
        have hwrote := @writeFrames_wrote (openMessage { conn with flushed := false }).2.poison
          (openMessage { conn with flushed := false }).1 frames fates rfl
        rw [hmiddle] at hwrote
        cases hback
        exact ⟨hwrote.inbound, hwrote.ending, hwrote.buf, hwrote.context, hwrote.desync,
          hclear.symm, hwrote.flushed⟩

/-- What writing a message does: its bytes are put on the wire, and where it returns
the connection is clean, with the writing half alone changed. -/
structure Delivers (conn : Connection) (bytes : List UInt8) (attempt : Attempt) : Prop where
  puts : Puts conn bytes attempt
  wrote : ∀ after, attempt = .returned (.ok ()) after → conn.Wrote after ∧ after.transport.Clean

theorem send_delivers (hrange : conn.context.SizeInRange) (hclean : conn.transport.Clean)
    (husable : conn.ensureNotPoisoned = .ok ()) (header : PacketHeader) (payload : List UInt8)
    (fates : List Fate) :
    conn.Delivers (conn.messageBytes header payload) (conn.send header (.ok payload) fates) := by
  refine ⟨send_puts hrange (fun _ => hclean) header payload fates, fun after hafter => ?_⟩
  obtain ⟨frames, hwrites, -⟩ := send_writes (fun _ => hclean) header (.ok payload) fates
  rcases send_encoded header payload fates husable hrange with ⟨other, hother, hwrote⟩ | hfail
  · rw [hother] at hafter
    cases hafter
    rw [hother] at hwrites
    refine ⟨hwrote, hwrites.clean (fun _ => hclean) ?_⟩
    exact hwrote.poisoned.trans (not_poisoned_of_guard husable).1
  · exact absurd hafter (hfail.1 after)

theorem sendSensitiveLogin_delivers (hrange : conn.context.SizeInRange)
    (hclean : conn.transport.Clean) (husable : conn.ensureNotPoisoned = .ok ())
    (header : PacketHeader) (payload : List UInt8) (fates : List Fate) :
    conn.Delivers (conn.messageBytes header payload)
      (conn.sendSensitiveLogin header payload fates) := by
  refine ⟨sendSensitiveLogin_puts hrange header payload fates, fun after hafter => ?_⟩
  obtain ⟨frames, hwrites, -⟩ := sendSensitiveLogin_writes (fun _ => hclean) header payload fates
  have hwrote := sendSensitiveLogin_wrote hafter
  rw [hafter] at hwrites
  refine ⟨hwrote, hwrites.clean (fun _ => hclean) ?_⟩
  exact hwrote.poisoned.trans (not_poisoned_of_guard husable).1

end Connection

end Tiberius
