import Tiberius.Packets

/-!
How a payload is cut into packets. The packet loop of `send` and the framer of
the login are two loops over the same payload; both produce the packets of its
pieces. The packet size that bounds the pieces is only ever replaced by a size
in range, so the loops make progress and the length of every packet fits its
field.
-/

namespace Tiberius

open Reading

theorem PacketHeader.setStatus_setStatus (header : PacketHeader) (first second : PacketStatus) :
    (header.setStatus first).setStatus second = header.setStatus second := rfl

/-- The packets of a message: one for each piece, the last one marked. -/
def packetsOf (header : PacketHeader) : List (List UInt8) → List Packet
  | [] => []
  | piece :: rest =>
    { header := header.setStatus (if rest.isEmpty then .endOfMessage else .normalMessage)
      payload := piece } :: packetsOf header rest

/-- The packets of a payload whose pieces hold `chunk` bytes. -/
def messagePackets (header : PacketHeader) (chunk : ℕ) (payload : List UInt8) : List Packet :=
  packetsOf header (chunksOf chunk payload.length payload)

theorem packetsOf_setStatus (header : PacketHeader) (status : PacketStatus)
    (pieces : List (List UInt8)) : packetsOf (header.setStatus status) pieces =
      packetsOf header pieces := by
  induction pieces with
  | nil => rfl
  | cons piece rest ih => simp only [packetsOf, ih, PacketHeader.setStatus_setStatus]

theorem packetsOf_payloads (header : PacketHeader) (pieces : List (List UInt8)) :
    (packetsOf header pieces).map Packet.payload = pieces := by
  induction pieces with
  | nil => rfl
  | cons piece rest ih => simp only [packetsOf, List.map_cons, ih]

theorem packetsOf_header (header : PacketHeader) (pieces : List (List UInt8)) :
    ∀ packet ∈ packetsOf header pieces, packet.header = header.setStatus packet.header.status := by
  induction pieces with
  | nil => exact fun packet hpacket => absurd hpacket List.not_mem_nil
  | cons piece rest ih =>
    intro packet hpacket
    rcases List.mem_cons.mp hpacket with rfl | hrest
    · rfl
    · exact ih packet hrest

theorem packetsOf_eq_nil {header : PacketHeader} {pieces : List (List UInt8)} :
    packetsOf header pieces = [] ↔ pieces = [] := by
  cases pieces with
  | nil => exact ⟨fun _ => rfl, fun _ => rfl⟩
  | cons piece rest => simp only [packetsOf, reduceCtorEq]

/-- The last packet ends the message. -/
theorem packetsOf_getLast (header : PacketHeader) {pieces : List (List UInt8)}
    (hpieces : pieces ≠ []) :
    ∃ last, (packetsOf header pieces).getLast? = some last ∧
      last.header.status = .endOfMessage := by
  induction pieces with
  | nil => exact absurd rfl hpieces
  | cons piece rest ih =>
    by_cases hrest : rest = []
    · subst hrest
      exact ⟨_, rfl, rfl⟩
    · obtain ⟨last, hlast, hstatus⟩ := ih hrest
      refine ⟨last, ?_, hstatus⟩
      simp only [packetsOf, List.getLast?_cons, hlast, Option.getD_some]

/-- Every packet but the last one carries a piece but the last one, and leaves
the message open. -/
theorem packetsOf_dropLast (header : PacketHeader) (pieces : List (List UInt8)) :
    ∀ packet ∈ (packetsOf header pieces).dropLast,
      packet.header.status = .normalMessage ∧ packet.payload ∈ pieces.dropLast := by
  induction pieces with
  | nil => exact fun packet hpacket => absurd hpacket List.not_mem_nil
  | cons piece rest ih =>
    intro packet hpacket
    by_cases hrest : rest = []
    · subst hrest
      exact absurd hpacket List.not_mem_nil
    · have hempty : rest.isEmpty = false := by simpa only [List.isEmpty_eq_false_iff] using hrest
      have hpackets : packetsOf header rest ≠ [] := fun hnil => hrest (packetsOf_eq_nil.mp hnil)
      rw [packetsOf, List.dropLast_cons_of_ne_nil hpackets, List.mem_cons] at hpacket
      rw [List.dropLast_cons_of_ne_nil hrest]
      rcases hpacket with rfl | hmem
      · exact ⟨by rw [hempty]; rfl, List.mem_cons_self⟩
      · obtain ⟨hstatus, hpayload⟩ := ih packet hmem
        exact ⟨hstatus, List.mem_cons_of_mem piece hpayload⟩

theorem messagePackets_payload {chunk : ℕ} (hchunk : 0 < chunk) (header : PacketHeader)
    (payload : List UInt8) :
    (messagePackets header chunk payload).flatMap Packet.payload = payload := by
  rw [messagePackets, List.flatMap_def, packetsOf_payloads,
    chunksOf_flatten hchunk payload.length payload (Nat.le_refl _)]

/-- All packets but the last one are full. -/
theorem messagePackets_dropLast (header : PacketHeader) (chunk : ℕ) (payload : List UInt8) :
    ∀ packet ∈ (messagePackets header chunk payload).dropLast,
      packet.header.status = .normalMessage ∧ packet.payload.length = chunk := by
  intro packet hpacket
  obtain ⟨hstatus, hpiece⟩ := packetsOf_dropLast header _ packet hpacket
  exact ⟨hstatus, chunksOf_dropLast_length payload.length payload packet.payload hpiece⟩

theorem messagePackets_length_le (header : PacketHeader) (chunk : ℕ) (payload : List UInt8) :
    ∀ packet ∈ messagePackets header chunk payload, packet.payload.length ≤ chunk := by
  intro packet hpacket
  have hpiece : packet.payload ∈ chunksOf chunk payload.length payload := by
    rw [← packetsOf_payloads header (chunksOf chunk payload.length payload)]
    exact List.mem_map_of_mem hpacket
  exact chunksOf_length_le chunk payload.length payload packet.payload hpiece

namespace Packet

theorem encode_nil_length (packet : Packet) :
    (packet.encode []).length = headerBytes + packet.payload.length := by
  rw [encode_length, List.length_nil, Nat.zero_add]

/-- A packet is its header and payload under the length of both. -/
theorem encode_nil (packet : Packet) :
    packet.encode [] = patchLength (packet.header.encode ++ packet.payload)
      (UInt16.ofNat (packet.header.encode ++ packet.payload).length) := by
  have hsize : UInt16.ofNat (packet.header.encode ++ packet.payload).length =
      UInt16.ofNat packet.payload.length + UInt16.ofNat headerBytes := by
    rw [List.length_append, PacketHeader.encode_length, Nat.add_comm, UInt16.ofNat_add]
  rw [encode, hsize, List.nil_append]

/-- The length field of an encoded packet. -/
def lengthField (bytes : List UInt8) : ℕ := beNat ((bytes.drop 2).take 2)

theorem lengthField_patchLength (header : PacketHeader) (payload : List UInt8) (size : UInt16) :
    lengthField (patchLength (header.encode ++ payload) size) = size.toNat := by
  have hbytes : ∃ high low, toBe 2 size.toNat = [high, low] :=
    List.length_eq_two.mp (toBe_length 2 size.toNat)
  obtain ⟨high, low, hbe⟩ := hbytes
  have hfield : ∃ a b rest, header.encode ++ payload =
      [header.ty.toByte, header.status.toByte, a, b] ++ rest := by
    obtain ⟨a, b, hlength⟩ := List.length_eq_two.mp (toBe_length 2 header.length.toNat)
    refine ⟨a, b, toBe 2 header.spid.toNat ++ [header.id, header.window] ++ payload, ?_⟩
    simp only [PacketHeader.encode, hlength, List.append_assoc, List.cons_append, List.nil_append]
  obtain ⟨a, b, rest, hsplit⟩ := hfield
  have hvalue := beNat_toBe 2 size.toNat
  rw [hsplit, lengthField, patchLength, hbe]
  rw [hbe] at hvalue
  simp only [List.cons_append, List.nil_append, List.set_cons_succ, List.set_cons_zero,
    List.getD_cons_zero, List.getD_cons_succ, List.drop_succ_cons, List.drop_zero,
    List.take_succ_cons, List.take_zero, hvalue]
  exact Nat.mod_eq_of_lt size.toNat_lt

theorem lengthField_encode {packet : Packet} (hlength : (packet.encode []).length < 2 ^ 16) :
    lengthField (packet.encode []) = (packet.encode []).length := by
  have hsame : (packet.encode []).length = (packet.header.encode ++ packet.payload).length := by
    rw [encode_nil, patchLength_length]
  rw [hsame] at hlength ⊢
  rw [encode_nil, lengthField_patchLength]
  exact UInt16.toNat_ofNat_of_lt hlength

end Packet

namespace Connection

/-- The framer of the login yields the encoded packets of the payload. -/
theorem frameLoop_eq {chunk : ℕ} (hchunk : 0 < chunk) (payload : List UInt8) (fuel : ℕ)
    (header : PacketHeader) (offset : ℕ) (hfuel : payload.length - offset ≤ fuel) :
    frameLoop payload chunk fuel header offset =
      some ((packetsOf header (chunksOf chunk fuel (payload.drop offset))).map
        fun packet => packet.encode []) := by
  induction fuel generalizing header offset with
  | zero =>
    have hend : ¬offset < payload.length := by omega
    simp only [frameLoop, hend, if_false, chunksOf, packetsOf, List.map_nil]
  | succ fuel ih =>
    by_cases hoffset : offset < payload.length
    · have hne : payload.drop offset ≠ [] := by
        intro hnil
        have hlength := congrArg List.length hnil
        rw [List.length_drop, List.length_nil] at hlength
        omega
      have hrest : payload.drop (min payload.length (offset + chunk)) =
          (payload.drop offset).drop chunk := by
        rw [List.drop_drop, Nat.min_comm, ← List.drop_eq_drop_min]
      have hpiece : (payload.drop offset).take (min payload.length (offset + chunk) - offset) =
          (payload.drop offset).take chunk := by
        refine List.take_eq_take_iff.mpr ?_
        rw [List.length_drop]
        omega
      have hlength : ((payload.drop offset).drop chunk).length ≤ fuel := by
        rw [List.drop_drop, List.length_drop]
        omega
      have hends : min payload.length (offset + chunk) = payload.length ↔
          (chunksOf chunk fuel ((payload.drop offset).drop chunk)).isEmpty = true := by
        rw [chunksOf_isEmpty hlength, List.isEmpty_iff, List.drop_drop, List.drop_eq_nil_iff]
        omega
      simp only [frameLoop, hoffset, if_true]
      rw [ih _ _ (by omega), packetsOf_setStatus, hrest, hpiece, if_congr hends rfl rfl,
        chunksOf_succ _ _ hne]
      simp only [packetsOf, Option.map_some, List.map_cons, Packet.encode_nil]
    · have hnil : payload.drop offset = [] := List.drop_of_length_le (by omega)
      simp only [frameLoop, hoffset, if_false, hnil, chunksOf_nil, packetsOf, List.map_nil]

theorem frameSensitiveLogin_eq {chunk : ℕ} (hchunk : 0 < chunk) (header : PacketHeader)
    (payload : List UInt8) :
    frameSensitiveLogin header payload chunk =
      some ((messagePackets header chunk payload).map fun packet => packet.encode []) := by
  rw [frameSensitiveLogin, frameLoop_eq hchunk payload payload.length header 0 (by omega),
    List.drop_zero]
  rfl

/-- A packet whose flush completes stands on the wire whole. -/
theorem writeToWire_completes (message : ℕ) (header : PacketHeader) (data : List UInt8)
    {conn : Connection} (hclean : conn.transport.Clean) :
    conn.writeToWire message header data .completes =
      .returned (.ok ()) (conn.rewrite false []
        (conn.transport.wire ++ Packet.encode { header := header, payload := data } [])
        (conn.transport.frames ++
          [sentFrame message { header := header, payload := data } .completes])) := by
  have hlength := Packet.encode_nil_length { header := header, payload := data }
  have hsink : (conn.transport.enqueue message { header := header, payload := data }).sink =
      Packet.encode { header := header, payload := data } [] := by
    simp only [Transport.enqueue, hclean.sink]
  simp only [writeToWire, flushSink, hsink, Transport.advance_enqueue hclean, hlength,
    Nat.min_self, sentFrame, rewrite]
  rw [← hlength, List.take_length, List.drop_length]

/-- The loop of a send that has nothing left to write. -/
theorem sendLoop_nil (message chunk fuel : ℕ) (header : PacketHeader) {conn : Connection}
    (hclean : conn.transport.Clean) (hflushed : conn.flushed = false) :
    sendLoop message chunk (fuel + 1) header [] [] conn =
      .returned (.ok ()) (conn.rewrite false [] conn.transport.wire conn.transport.frames) := by
  have hloop : sendLoop message chunk (fuel + 1) header [] [] conn = flushSink .completes conn := rfl
  rw [hloop, flushSink_clean .completes hclean, rewrite, ← hflushed, ← hclean.sink]

/-- The loop of a send that writes a packet and goes on with the rest. -/
theorem sendLoop_succ {message chunk : ℕ} (fuel : ℕ) (header : PacketHeader) {payload : List UInt8}
    (hpayload : payload ≠ []) {conn middle : Connection}
    (hwrite : conn.writeToWire message
      (header.setStatus (if (payload.drop chunk).isEmpty then .endOfMessage else .normalMessage))
      (payload.take chunk) .completes = .returned (.ok ()) middle) :
    sendLoop message chunk (fuel + 1) header payload [] conn =
      sendLoop message chunk fuel
        (header.setStatus (if (payload.drop chunk).isEmpty then .endOfMessage else .normalMessage))
        (payload.drop chunk) [] middle := by
  have hpiece : payload.take (min payload.length chunk) = payload.take chunk := by
    rw [Nat.min_comm, ← List.take_eq_take_min]
  have hrest : payload.drop (min payload.length chunk) = payload.drop chunk := by
    rw [Nat.min_comm, ← List.drop_eq_drop_min]
  rw [sendLoop]
  simp only [List.isEmpty_eq_false_iff.mpr hpayload, Bool.false_eq_true, if_false, hpiece, hrest,
    List.headD_nil, hwrite, Attempt.andThen, List.tail_nil]

/-- A send whose awaits complete writes the packets of its payload. -/
theorem sendLoop_completes {chunk : ℕ} (hchunk : 0 < chunk) (message fuel : ℕ)
    (header : PacketHeader) (payload : List UInt8) {conn : Connection}
    (hclean : conn.transport.Clean) (hflushed : conn.flushed = false)
    (hfuel : payload.length ≤ fuel) :
    ∃ frames, sendLoop message chunk (fuel + 1) header payload [] conn =
      .returned (.ok ()) (conn.rewrite false []
        (conn.transport.wire ++ ((packetsOf header (chunksOf chunk fuel payload)).map
          fun packet => packet.encode []).flatten)
        (conn.transport.frames ++ frames)) := by
  induction fuel generalizing header payload conn with
  | zero =>
    have hnil : payload = [] := List.length_eq_zero_iff.mp (Nat.le_zero.mp hfuel)
    subst hnil
    refine ⟨[], ?_⟩
    rw [sendLoop_nil message chunk 0 header hclean hflushed, chunksOf_nil]
    simp only [packetsOf, List.map_nil, List.flatten_nil, List.append_nil]
  | succ fuel ih =>
    by_cases hpayload : payload = []
    · subst hpayload
      refine ⟨[], ?_⟩
      rw [sendLoop_nil message chunk (fuel + 1) header hclean hflushed, chunksOf_nil]
      simp only [packetsOf, List.map_nil, List.flatten_nil, List.append_nil]
    · have hpos := List.length_pos_iff.mpr hpayload
      have hlength : (payload.drop chunk).length ≤ fuel := by
        rw [List.length_drop]
        omega
      generalize hheader : header.setStatus
        (if (payload.drop chunk).isEmpty then .endOfMessage else .normalMessage) = next
      generalize hmiddle : conn.rewrite false []
        (conn.transport.wire ++ Packet.encode { header := next, payload := payload.take chunk } [])
        (conn.transport.frames ++
          [sentFrame message { header := next, payload := payload.take chunk } .completes]) =
            middle
      have hwrite : conn.writeToWire message next (payload.take chunk) .completes =
          .returned (.ok ()) middle := by
        rw [writeToWire_completes message next _ hclean, hmiddle]
      have hsends := writeToWire_sends message next (payload.take chunk) .completes hclean
      obtain ⟨frames, hframes⟩ := ih next (payload.drop chunk) (hsends.clean hclean hwrite)
        (by rw [← hmiddle]; rfl) hlength
      refine ⟨[sentFrame message { header := next, payload := payload.take chunk } .completes] ++
        frames, ?_⟩
      rw [← hheader] at hwrite
      rw [sendLoop_succ (fuel + 1) header hpayload hwrite, hheader, hframes,
        chunksOf_succ _ _ hpayload, packetsOf, chunksOf_isEmpty hlength, hheader, ← hmiddle,
        ← packetsOf_setStatus header
          (if (payload.drop chunk).isEmpty then .endOfMessage else .normalMessage), hheader]
      simp only [rewrite, List.map_cons, List.flatten_cons, List.append_assoc]

end Connection

/-- A send whose awaits complete, on a connection that is clean and usable. -/
theorem Connection.send_completes {conn : Connection} {chunk : ℕ}
    (husable : conn.ensureNotPoisoned = .ok ()) (hclean : conn.transport.Clean)
    (hchunk : conn.context.chunkSize = some chunk) (hpos : 0 < chunk) (header : PacketHeader)
    (payload : List UInt8) :
    ∃ after, conn.send header (.ok payload) [] = .returned (.ok ()) after ∧
      after.transport.wire = conn.transport.wire ++
        ((messagePackets header chunk payload).map fun packet => packet.encode []).flatten := by
  generalize hopened : (openMessage { conn with flushed := false }).2.poison = opened
  have hopen : opened.transport.Clean := by
    rw [← hopened]
    exact ⟨hclean.sink, hclean.frames⟩
  obtain ⟨frames, hloop⟩ := sendLoop_completes hpos conn.transport.messages payload.length header
    payload hopen (by rw [← hopened]; rfl) (Nat.le_refl _)
  have hsend : conn.send header (.ok payload) [] =
      (sendLoop conn.transport.messages chunk (payload.length + 1) header payload [] opened).andThen
        fun conn => .returned (.ok ()) conn.unpoison := by
    unfold send
    simp only [husable, hchunk]
    rw [← hopened]
    rfl
  rw [hsend, hloop]
  refine ⟨_, rfl, ?_⟩
  rw [← hopened]
  rfl

/-- A write that came back or was dropped: it neither panicked nor spins. -/
def Attempt.Ends (attempt : Attempt) : Prop :=
  (∃ result conn, attempt = .returned result conn) ∨ ∃ conn, attempt = .dropped conn

/-- The frames handed over since, each of a size within the limit. -/
def Connection.Adds (limit : ℕ) (conn after : Connection) : Prop :=
  ∃ sizes, after.transport.frames.map Frame.size = conn.transport.frames.map Frame.size ++ sizes ∧
    ∀ size ∈ sizes, size ≤ limit

theorem Attempt.Ends.andThen {attempt : Attempt} {next : Connection → Attempt}
    (hends : attempt.Ends)
    (hnext : ∀ after, attempt = .returned (.ok ()) after → (next after).Ends) :
    (attempt.andThen next).Ends := by
  by_cases hdone : ∃ after, attempt = .returned (.ok ()) after
  · obtain ⟨after, rfl⟩ := hdone
    exact hnext after rfl
  · rw [Attempt.andThen_of_not_ok next fun after hafter => hdone ⟨after, hafter⟩]
    exact hends

namespace Connection

variable {limit : ℕ} {conn middle after : Connection}

theorem Adds.of_frames_eq (hframes : after.transport.frames = conn.transport.frames) :
    conn.Adds limit after :=
  ⟨[], by rw [hframes, List.append_nil], fun _ hsize => absurd hsize List.not_mem_nil⟩

theorem Adds.trans (hfirst : conn.Adds limit middle) (hsecond : middle.Adds limit after) :
    conn.Adds limit after := by
  obtain ⟨first, hframes, hsizes⟩ := hfirst
  obtain ⟨second, hmore, hmoresizes⟩ := hsecond
  refine ⟨first ++ second, by rw [hmore, hframes, List.append_assoc], fun size hsize => ?_⟩
  rcases List.mem_append.mp hsize with hin | hin
  · exact hsizes size hin
  · exact hmoresizes size hin

theorem Adds.mono {larger : ℕ} (hadds : conn.Adds limit after) (hle : limit ≤ larger) :
    conn.Adds larger after := by
  obtain ⟨sizes, hframes, hsizes⟩ := hadds
  exact ⟨sizes, hframes, fun size hsize => Nat.le_trans (hsizes size hsize) hle⟩

theorem Adds.andThen {attempt : Attempt} {next : Connection → Attempt}
    (hadds : conn.Adds limit attempt.conn)
    (hnext : ∀ after, attempt = .returned (.ok ()) after → after.Adds limit (next after).conn) :
    conn.Adds limit (attempt.andThen next).conn := by
  by_cases hdone : ∃ after, attempt = .returned (.ok ()) after
  · obtain ⟨after, rfl⟩ := hdone
    exact Adds.trans hadds (hnext after rfl)
  · rw [Attempt.andThen_of_not_ok next fun after hafter => hdone ⟨after, hafter⟩]
    exact hadds

theorem flushSink_ends (fate : Fate) : (conn.flushSink fate).Ends := by
  cases fate with
  | completes => exact Or.inl ⟨_, _, rfl⟩
  | fails error written => exact Or.inl ⟨_, _, rfl⟩
  | dropped written => exact Or.inr ⟨_, rfl⟩

theorem flushSink_adds (fate : Fate) : conn.Adds limit (conn.flushSink fate).conn := by
  refine ⟨[], ?_, fun size hsize => absurd hsize List.not_mem_nil⟩
  cases fate <;>
    simp only [flushSink, Attempt.conn, Transport.advance, Frame.credit_sizes, List.append_nil]

theorem writeToWire_adds (message : ℕ) (header : PacketHeader) {data : List UInt8} (fate : Fate)
    (hdata : headerBytes + data.length ≤ limit) :
    conn.Adds limit (conn.writeToWire message header data fate).conn := by
  refine Adds.trans ⟨[headerBytes + data.length], ?_, ?_⟩ (flushSink_adds fate)
  · simp only [Transport.enqueue, List.map_append, List.map_cons, List.map_nil]
  · intro size hsize
    rw [List.mem_singleton.mp hsize]
    exact hdata

theorem sendLoop_adds {chunk : ℕ} (hlimit : headerBytes + chunk ≤ limit) (message fuel : ℕ)
    (header : PacketHeader) (payload : List UInt8) (fates : List Fate) (conn : Connection) :
    conn.Adds limit (sendLoop message chunk fuel header payload fates conn).conn := by
  induction fuel generalizing header payload fates conn with
  | zero => exact Adds.of_frames_eq rfl
  | succ fuel ih =>
    rw [sendLoop]
    split
    · exact flushSink_adds _
    · refine Adds.andThen (writeToWire_adds message _ _ ?_) fun after _ => ih _ _ _ after
      rw [List.length_take]
      omega

/-- Every turn of the loop sends at least one byte, so it ends. -/
theorem sendLoop_ends {chunk : ℕ} (hchunk : 0 < chunk) (message fuel : ℕ) (header : PacketHeader)
    (payload : List UInt8) (fates : List Fate) (conn : Connection)
    (hfuel : payload.length < fuel) :
    (sendLoop message chunk fuel header payload fates conn).Ends := by
  induction fuel generalizing header payload fates conn with
  | zero => exact absurd hfuel (Nat.not_lt_zero _)
  | succ fuel ih =>
    rw [sendLoop]
    by_cases hpayload : payload = []
    · subst hpayload
      exact flushSink_ends _
    · have hpos := List.length_pos_iff.mpr hpayload
      have hempty : payload.isEmpty = false := by
        simpa only [List.isEmpty_eq_false_iff] using hpayload
      simp only [hempty, Bool.false_eq_true, if_false]
      refine Attempt.Ends.andThen (flushSink_ends _) fun after _ => ih _ _ _ after ?_
      rw [List.length_drop]
      omega

theorem writeFrames_adds (message : ℕ) (frames : List (List UInt8)) (fates : List Fate)
    (conn : Connection) (hframes : ∀ frame ∈ frames, frame.length ≤ limit) :
    conn.Adds limit (writeFrames message frames fates conn).conn := by
  induction frames generalizing fates conn with
  | nil =>
    refine Adds.of_frames_eq ?_
    simp only [writeFrames, flushStreamBelow]
    cases fates.headD .completes <;> rfl
  | cons frame rest ih =>
    have hwrite : conn.Adds limit
        (conn.writeAll message rest.isEmpty frame (fates.headD .completes)).conn := by
      refine ⟨[frame.length], ?_, fun size hsize => ?_⟩
      · simp only [writeAll]
        cases fates.headD .completes <;>
          simp only [Attempt.conn, Transport.writeThrough, List.map_append, List.map_cons,
            List.map_nil]
      · rw [List.mem_singleton.mp hsize]
        exact hframes frame List.mem_cons_self
    exact Adds.andThen hwrite fun after _ =>
      ih fates.tail after fun f hf => hframes f (List.mem_cons_of_mem frame hf)

theorem writeFrames_ends (message : ℕ) (frames : List (List UInt8)) (fates : List Fate)
    (conn : Connection) : (writeFrames message frames fates conn).Ends := by
  induction frames generalizing fates conn with
  | nil =>
    simp only [writeFrames, flushStreamBelow]
    cases fates.headD .completes with
    | completes => exact Or.inl ⟨_, _, rfl⟩
    | fails error written => exact Or.inl ⟨_, _, rfl⟩
    | dropped written => exact Or.inr ⟨_, rfl⟩
  | cons frame rest ih =>
    refine Attempt.Ends.andThen ?_ fun after _ => ih fates.tail after
    simp only [writeAll]
    cases fates.headD .completes with
    | completes => exact Or.inl ⟨_, _, rfl⟩
    | fails error written => exact Or.inl ⟨_, _, rfl⟩
    | dropped written => exact Or.inr ⟨_, rfl⟩

end Connection

namespace BulkLoadRequest

variable {limit chunk : ℕ}

theorem writeLoop_adds (hlimit : headerBytes + chunk ≤ limit) (fuel : ℕ)
    (request : BulkLoadRequest) (fates : List Fate) (conn : Connection) :
    conn.Adds limit (writeLoop chunk fuel request fates conn).1.conn := by
  induction fuel generalizing request fates conn with
  | zero => exact Connection.Adds.of_frames_eq rfl
  | succ fuel ih =>
    by_cases hshort : request.buf.length ≤ chunk
    · simp only [writeLoop, hshort, if_true]
      exact Connection.Adds.of_frames_eq rfl
    · rw [writeLoop_succ fuel fates conn (Nat.lt_of_not_le hshort)]
      refine Connection.Adds.andThen (Connection.writeToWire_adds _ _ _ ?_) fun after _ =>
        ih _ _ after
      rw [List.length_take]
      omega

theorem writeLoop_ends (hchunk : 0 < chunk) (fuel : ℕ) (request : BulkLoadRequest)
    (fates : List Fate) (conn : Connection) (hfuel : request.buf.length < fuel) :
    (writeLoop chunk fuel request fates conn).1.Ends := by
  induction fuel generalizing request fates conn with
  | zero => exact absurd hfuel (Nat.not_lt_zero _)
  | succ fuel ih =>
    by_cases hshort : request.buf.length ≤ chunk
    · simp only [writeLoop, hshort, if_true]
      exact Or.inl ⟨_, _, rfl⟩
    · rw [writeLoop_succ fuel fates conn (Nat.lt_of_not_le hshort)]
      refine Attempt.Ends.andThen (Connection.flushSink_ends _) fun after _ => ih _ _ after ?_
      rw [List.length_drop]
      omega

end BulkLoadRequest

namespace Context

/-- The packet sizes that the protocol allows. -/
def SizeInRange (context : Context) : Prop :=
  512 ≤ context.packetSize.toNat ∧ context.packetSize.toNat ≤ 32767

theorem new_sizeInRange : Context.new.SizeInRange := by
  refine ⟨?_, ?_⟩ <;> decide

/-- A token that is recorded leaves the packet size alone or sets it in range. -/
theorem receive_sizeInRange {context after : Context} {token : ReceivedToken}
    (hrange : context.SizeInRange) (hreceive : context.receive token = .ok after) :
    after.SizeInRange := by
  have hsame : after.packetSize = context.packetSize → after.SizeInRange := by
    intro hsize
    rw [SizeInRange, hsize]
    exact hrange
  cases token with
  | envChange change =>
    cases change with
    | packetSize old new =>
      unfold receive receiveEnvChange at hreceive
      by_cases hnew : 512 ≤ new ∧ new ≤ 32767
      · simp only [hnew, and_self, if_true, Except.ok.injEq] at hreceive
        have hlow := UInt32.le_iff_toNat_le.mp hnew.1
        have hhigh := UInt32.le_iff_toNat_le.mp hnew.2
        rw [← hreceive]
        exact ⟨hlow, hhigh⟩
      · simp only [hnew, if_false, reduceCtorEq] at hreceive
    | _ => cases hreceive; exact hsame rfl
  | _ => cases hreceive; exact hsame rfl

/-- The context after a sequence of tokens; one that is refused changes nothing. -/
def receiveAll (context : Context) (tokens : List ReceivedToken) : Context :=
  tokens.foldl (fun context token => (context.receive token).toOption.getD context) context

theorem receiveAll_sizeInRange {context : Context} (tokens : List ReceivedToken)
    (hrange : context.SizeInRange) : (context.receiveAll tokens).SizeInRange := by
  induction tokens generalizing context with
  | nil => exact hrange
  | cons token rest ih =>
    refine ih ?_
    cases hreceive : context.receive token with
    | ok after =>
      simp only [hreceive, Except.toOption, Option.getD_some]
      exact receive_sizeInRange hrange hreceive
    | error error => simpa only [hreceive, Except.toOption, Option.getD_none] using hrange

theorem SizeInRange.chunkSize {context : Context} (hrange : context.SizeInRange) :
    ∃ chunk, context.chunkSize = some chunk ∧ 0 < chunk ∧
      headerBytes + chunk = context.packetSize.toNat := by
  obtain ⟨hlow, -⟩ := hrange
  have hheader : headerBytes = 8 := rfl
  have hle : headerBytes ≤ context.packetSize.toNat := by omega
  refine ⟨context.packetSize.toNat - headerBytes, ?_, ?_, ?_⟩
  · rw [Context.chunkSize, if_pos hle]
  · omega
  · omega

end Context

namespace Connection

variable {conn : Connection} {chunk : ℕ}

theorem send_ends_adds (hchunk : conn.context.chunkSize = some chunk) (hpos : 0 < chunk)
    (header : PacketHeader) (item : Except Error (List UInt8)) (fates : List Fate) :
    (conn.send header item fates).Ends ∧
      conn.Adds (headerBytes + chunk) (conn.send header item fates).conn := by
  unfold send
  cases hguard : conn.ensureNotPoisoned with
  | error error => exact ⟨Or.inl ⟨_, _, rfl⟩, Adds.of_frames_eq rfl⟩
  | ok value =>
    simp only [hchunk]
    cases item with
    | error error => exact ⟨Or.inl ⟨_, _, rfl⟩, Adds.of_frames_eq rfl⟩
    | ok payload =>
      simp only [openMessage]
      refine ⟨?_, ?_⟩
      · exact Attempt.Ends.andThen (sendLoop_ends hpos _ _ _ _ _ _ (Nat.lt_succ_self _))
          fun after _ => Or.inl ⟨_, _, rfl⟩
      · refine Adds.andThen (Adds.trans (Adds.of_frames_eq ?_)
          (sendLoop_adds (Nat.le_refl _) _ _ _ _ _ _)) fun after _ => Adds.of_frames_eq rfl
        rfl

theorem sendSensitiveLogin_ends_adds (hchunk : conn.context.chunkSize = some chunk)
    (hpos : 0 < chunk) (header : PacketHeader) (payload : List UInt8) (fates : List Fate) :
    (conn.sendSensitiveLogin header payload fates).Ends ∧
      conn.Adds (headerBytes + chunk) (conn.sendSensitiveLogin header payload fates).conn := by
  unfold sendSensitiveLogin
  cases hguard : conn.ensureNotPoisoned with
  | error error => exact ⟨Or.inl ⟨_, _, rfl⟩, Adds.of_frames_eq rfl⟩
  | ok value =>
    simp only [hchunk, frameSensitiveLogin_eq hpos, openMessage]
    refine ⟨?_, ?_⟩
    · exact Attempt.Ends.andThen (writeFrames_ends _ _ _ _) fun after _ => Or.inl ⟨_, _, rfl⟩
    · have hlengths : ∀ frame ∈ (messagePackets header chunk payload).map
          (fun packet => packet.encode []), frame.length ≤ headerBytes + chunk := by
        intro frame hframe
        obtain ⟨packet, hpacket, rfl⟩ := List.mem_map.mp hframe
        have hlength := messagePackets_length_le header chunk payload packet hpacket
        rw [Packet.encode_nil_length]
        omega
      refine Adds.andThen (Adds.trans (Adds.of_frames_eq ?_) (writeFrames_adds _ _ _ _ hlengths))
        fun after _ => Adds.of_frames_eq rfl
      rfl

end Connection

theorem BulkLoadRequest.writePackets_ends_adds {conn : Connection} {chunk : ℕ}
    (hchunk : conn.context.chunkSize = some chunk) (hpos : 0 < chunk) (request : BulkLoadRequest)
    (fates : List Fate) :
    (request.writePackets fates conn).1.Ends ∧
      conn.Adds (headerBytes + chunk) (request.writePackets fates conn).1.conn := by
  unfold writePackets
  simp only [hchunk]
  split
  · exact ⟨Or.inl ⟨_, _, rfl⟩, Connection.Adds.of_frames_eq rfl⟩
  · refine ⟨?_, ?_⟩
    · exact Attempt.Ends.andThen (writeLoop_ends hpos _ _ _ _ (Nat.lt_succ_self _))
        fun after _ => Or.inl ⟨_, _, rfl⟩
    · refine Connection.Adds.andThen (Connection.Adds.trans (Connection.Adds.of_frames_eq ?_)
        (writeLoop_adds (Nat.le_refl _) _ _ _ _)) fun after _ => Connection.Adds.of_frames_eq rfl
      rfl

/-- The packet size stays in range whatever tokens come, so every write of a
packet loop ends and every packet fits the 16 bits of its length. -/
theorem packetSize_in_range (tokens : List ReceivedToken) (conn : Connection)
    (hsize : conn.context.packetSize = (Context.new.receiveAll tokens).packetSize) :
    (512 ≤ conn.context.packetSize.toNat ∧ conn.context.packetSize.toNat ≤ 32767) ∧
      (∃ chunk, conn.context.chunkSize = some chunk ∧ 0 < chunk) ∧
      (∀ header item fates, (conn.send header item fates).Ends ∧
        conn.Adds (2 ^ 16 - 1) (conn.send header item fates).conn) ∧
      (∀ header payload fates, (conn.sendSensitiveLogin header payload fates).Ends ∧
        conn.Adds (2 ^ 16 - 1) (conn.sendSensitiveLogin header payload fates).conn) ∧
      ∀ (request : BulkLoadRequest) fates, (request.writePackets fates conn).1.Ends ∧
        conn.Adds (2 ^ 16 - 1) (request.writePackets fates conn).1.conn := by
  have hrange : conn.context.SizeInRange := by
    rw [Context.SizeInRange, hsize]
    exact Context.receiveAll_sizeInRange tokens Context.new_sizeInRange
  obtain ⟨chunk, hchunk, hpos, hfull⟩ := hrange.chunkSize
  have hlimit : headerBytes + chunk ≤ 2 ^ 16 - 1 := by
    have hhigh := hrange.2
    omega
  refine ⟨hrange, ⟨chunk, hchunk, hpos⟩, ?_, ?_, ?_⟩
  · intro header item fates
    obtain ⟨hends, hadds⟩ := Connection.send_ends_adds hchunk hpos header item fates
    exact ⟨hends, hadds.mono hlimit⟩
  · intro header payload fates
    obtain ⟨hends, hadds⟩ := Connection.sendSensitiveLogin_ends_adds hchunk hpos header payload fates
    exact ⟨hends, hadds.mono hlimit⟩
  · intro request fates
    obtain ⟨hends, hadds⟩ := request.writePackets_ends_adds hchunk hpos fates
    exact ⟨hends, hadds.mono hlimit⟩

/-- A negotiated size is taken, one out of range is refused. -/
theorem packetSize_in_range_negotiated :
    let conn := { Connection.new [] .silent with context := Context.new.setPacketSize 8000 }
    (conn.send (.batch 1) (.ok [0x41, 0]) []).Ends := by
  intro conn
  exact ((packetSize_in_range
    [.envChange (.packetSize 4096 8000), .envChange (.packetSize 8000 8)] conn (by decide)).2.2.1
      _ _ _).1

end Tiberius
