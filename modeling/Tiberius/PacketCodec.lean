import Tiberius.Framing

/-!
The codec that cuts packets out of the read buffer. A call sees whatever has
arrived so far and either takes one whole packet from the front, leaves the
buffer for a later call, or rejects it. Every access that would go past the end
of the buffer ends in a panic of the model, so that the absence of such accesses
is a statement about all buffers.
-/

namespace Tiberius

/-- A computation on a buffer that it consumes from the front. What has been
consumed stays consumed when the computation ends early. -/
abbrev OnBuffer (α : Type) : Type := ExceptT Fault (StateM (List UInt8)) α

namespace OnBuffer

variable {α β : Type}

/-- The answer of a call on a buffer, and the bytes it leaves. -/
def call (computation : OnBuffer α) (src : List UInt8) : Except Fault α × List UInt8 :=
  (computation.run src).run

def reject (error : Error) : OnBuffer α := throw (.error error)

/-- `src[position]`. -/
def index (position : ℕ) : OnBuffer UInt8 := do
  match (← get)[position]? with
  | some byte => pure byte
  | none => throw .panic

/-- `split_to`, which panics past the end of the buffer. -/
def splitTo (count : ℕ) : OnBuffer (List UInt8) := do
  let src ← get
  if count ≤ src.length then
    set (src.drop count)
    pure (src.take count)
  else throw .panic

def getU8 : OnBuffer UInt8 := do
  let bytes ← splitTo 1
  pure (UInt8.ofNat (beNat bytes))

def getU16 : OnBuffer UInt16 := do
  let bytes ← splitTo 2
  pure (UInt16.ofNat (beNat bytes))

theorem call_pure (value : α) (src : List UInt8) :
    call (pure value) src = (.ok value, src) := rfl

theorem call_bind (computation : OnBuffer α) (next : α → OnBuffer β) (src : List UInt8) :
    call (computation >>= next) src =
      match call computation src with
      | (.ok value, rest) => call (next value) rest
      | (.error fault, rest) => (.error fault, rest) := by
  change (StateT.bind computation.run (ExceptT.bindCont next) src).run = _
  simp only [StateT.bind, call]
  rcases hcall : computation.run src with ⟨result, rest⟩
  cases result with
  | ok value => rfl
  | error fault => rfl

theorem call_get_bind (next : List UInt8 → OnBuffer α) (src : List UInt8) :
    call (get >>= next) src = call (next src) src := rfl

theorem call_index {position : ℕ} {byte : UInt8} {src : List UInt8}
    (hbyte : src[position]? = some byte) : call (index position) src = (.ok byte, src) := by
  rw [index, call_get_bind, hbyte]
  rfl

theorem call_splitTo {count : ℕ} {src : List UInt8} (hcount : count ≤ src.length) :
    call (splitTo count) src = (.ok (src.take count), src.drop count) := by
  rw [splitTo, call_get_bind, if_pos hcount]
  rfl

theorem call_getU8 (byte : UInt8) (rest : List UInt8) :
    call getU8 (byte :: rest) = (.ok byte, rest) := by
  have hcount : 1 ≤ (byte :: rest).length := by simp only [List.length_cons]; omega
  rw [getU8, call_bind, call_splitTo hcount]
  simp only [List.take_succ_cons, List.take_zero, List.drop_succ_cons, List.drop_zero, call_pure,
    beNat, List.reverse_singleton, leNat, Nat.mul_zero, Nat.add_zero, UInt8.ofNat_toNat]

theorem call_getU16 (value : UInt16) (rest : List UInt8) :
    call getU16 (toBe 2 value.toNat ++ rest) = (.ok value, rest) := by
  have hlength := toBe_length 2 value.toNat
  have hcount : 2 ≤ (toBe 2 value.toNat ++ rest).length := by
    rw [List.length_append, hlength]
    omega
  have hvalue : beNat (toBe 2 value.toNat) = value.toNat := by
    rw [beNat_toBe]
    exact Nat.mod_eq_of_lt value.toNat_lt
  rw [getU16, call_bind, call_splitTo hcount, List.take_left' hlength, List.drop_left' hlength]
  simp only [call_pure, hvalue, UInt16.ofNat_toNat]

theorem call_getU16_cons (high low : UInt8) (rest : List UInt8) :
    ∃ value, call getU16 (high :: low :: rest) = (.ok value, rest) := by
  have hcount : 2 ≤ (high :: low :: rest).length := by simp only [List.length_cons]; omega
  refine ⟨UInt16.ofNat (beNat [high, low]), ?_⟩
  rw [getU16, call_bind, call_splitTo hcount]
  rfl

end OnBuffer

namespace PacketType

def all : List PacketType :=
  [sqlBatch, preTDSv7Login, rpc, tabularResult, attentionSignal, bulkLoad, fat,
    transactionManagerReq, tdsv7Login, sspi, preLogin]

def tryFrom (byte : UInt8) : Option PacketType := all.find? fun ty => ty.toByte == byte

theorem tryFrom_toByte (ty : PacketType) : tryFrom ty.toByte = some ty := by
  cases ty <;> rfl

end PacketType

namespace PacketStatus

def all : List PacketStatus :=
  [normalMessage, endOfMessage, ignoreEvent, resetConnection, resetConnectionSkipTran]

def tryFrom (byte : UInt8) : Option PacketStatus := all.find? fun status => status.toByte == byte

theorem tryFrom_toByte (status : PacketStatus) : tryFrom status.toByte = some status := by
  cases status <;> rfl

end PacketStatus

open OnBuffer

/-- `PacketHeader::decode`. A byte that names no type or no status has been
consumed when it is rejected. -/
def PacketHeader.decode : OnBuffer PacketHeader := do
  let rawTy ← getU8
  match PacketType.tryFrom rawTy with
  | none => reject (.protocol ("header: invalid packet type: " ++ toString rawTy))
  | some ty =>
    let rawStatus ← getU8
    match PacketStatus.tryFrom rawStatus with
    | none => reject (.protocol "header: invalid packet status")
    | some status =>
      let length ← getU16
      let spid ← getU16
      let id ← getU8
      let window ← getU8
      pure
        { ty := ty
          status := status
          length := length
          spid := spid
          id := id
          window := window }

namespace PacketHeader

theorem decode_encode (header : PacketHeader) (rest : List UInt8) :
    call decode (header.encode ++ rest) = (.ok header, rest) := by
  have hsplit : header.encode ++ rest = header.ty.toByte :: header.status.toByte ::
      (toBe 2 header.length.toNat ++
        (toBe 2 header.spid.toNat ++ (header.id :: header.window :: rest))) := by
    simp only [encode, List.append_assoc, List.cons_append, List.nil_append]
  rw [hsplit, decode]
  simp only [call_bind, call_getU8, PacketType.tryFrom_toByte, PacketStatus.tryFrom_toByte,
    call_getU16, call_pure]

theorem exists_header {src : List UInt8} (hlength : headerBytes ≤ src.length) :
    ∃ b0 b1 b2 b3 b4 b5 b6 b7 rest,
      src = b0 :: b1 :: b2 :: b3 :: b4 :: b5 :: b6 :: b7 :: rest := by
  have hcons : ∀ {count : ℕ} {bytes : List UInt8}, count + 1 ≤ bytes.length →
      ∃ byte rest, bytes = byte :: rest ∧ count ≤ rest.length := by
    intro count bytes hbytes
    cases bytes with
    | nil => simp only [List.length_nil] at hbytes; omega
    | cons byte rest => exact ⟨byte, rest, rfl, by simp only [List.length_cons] at hbytes; omega⟩
  obtain ⟨b0, r0, rfl, h0⟩ := hcons hlength
  obtain ⟨b1, r1, rfl, h1⟩ := hcons h0
  obtain ⟨b2, r2, rfl, h2⟩ := hcons h1
  obtain ⟨b3, r3, rfl, h3⟩ := hcons h2
  obtain ⟨b4, r4, rfl, h4⟩ := hcons h3
  obtain ⟨b5, r5, rfl, h5⟩ := hcons h4
  obtain ⟨b6, r6, rfl, h6⟩ := hcons h5
  obtain ⟨b7, r7, rfl, -⟩ := hcons h6
  exact ⟨b0, b1, b2, b3, b4, b5, b6, b7, r7, rfl⟩

/-- On a buffer that holds a header, decoding one either consumes it or returns
an error. -/
theorem decode_total {src : List UInt8} (hlength : headerBytes ≤ src.length) :
    (∃ header, call decode src = (.ok header, src.drop headerBytes)) ∨
      ∃ error rest, call decode src = (.error (.error error), rest) := by
  obtain ⟨b0, b1, b2, b3, b4, b5, b6, b7, rest, rfl⟩ := exists_header hlength
  obtain ⟨length, hlen⟩ := call_getU16_cons b2 b3 (b4 :: b5 :: b6 :: b7 :: rest)
  obtain ⟨spid, hspid⟩ := call_getU16_cons b4 b5 (b6 :: b7 :: rest)
  simp only [decode, call_bind, call_getU8]
  cases PacketType.tryFrom b0 with
  | none => exact Or.inr ⟨_, _, rfl⟩
  | some ty =>
    simp only [call_bind, call_getU8]
    cases PacketStatus.tryFrom b1 with
    | none => exact Or.inr ⟨_, _, rfl⟩
    | some status =>
      refine Or.inl ⟨{ ty, status, length, spid, id := b6, window := b7 }, ?_⟩
      simp only [call_bind, hlen, hspid, call_getU8, call_pure]
      rfl

end PacketHeader

namespace PacketCodec

/-- `PacketCodec::decode`: the length is looked at before anything is consumed. -/
def decode : OnBuffer (Option Packet) := do
  let src ← get
  if src.length < headerBytes then pure none
  else
    let high ← index 2
    let low ← index 3
    let length := beNat [high, low]
    if src.length < length then pure none
    else if length < headerBytes then reject (.protocol "Invalid packet length")
    else
      let header ← PacketHeader.decode
      let payload ← splitTo (length - headerBytes)
      pure (some { header := header, payload := payload })

/-- `PacketCodec::decode_eof`: nothing may be left over at the end of the input. -/
def decodeEof : OnBuffer (Option Packet) := do
  match ← decode with
  | some frame => pure (some frame)
  | none =>
    if (← get).isEmpty then pure none
    else reject (.io .other "bytes remaining on stream")

/-- The length a buffered header declares for its packet. -/
def declaredLength (src : List UInt8) : Option ℕ :=
  if headerBytes ≤ src.length then some (Packet.lengthField src) else none

/-- What a call does, told by the length the buffer declares. -/
theorem decode_eq (src : List UInt8) :
    call decode src =
      match declaredLength src with
      | none => (.ok none, src)
      | some length =>
        if src.length < length then (.ok none, src)
        else if length < headerBytes then (.error (.error (.protocol "Invalid packet length")), src)
        else
          call (do
            let header ← PacketHeader.decode
            let payload ← splitTo (length - headerBytes)
            pure (some { header := header, payload := payload })) src := by
  by_cases hlength : headerBytes ≤ src.length
  · have hfield : ∃ high low, src[2]? = some high ∧ src[3]? = some low ∧
        Packet.lengthField src = beNat [high, low] := by
      obtain ⟨_, _, high, low, _, _, _, _, _, rfl⟩ := PacketHeader.exists_header hlength
      exact ⟨high, low, rfl, rfl, rfl⟩
    obtain ⟨high, low, hhigh, hlow, hfield⟩ := hfield
    rw [decode, call_get_bind, if_neg (Nat.not_lt.mpr hlength), declaredLength, if_pos hlength]
    simp only [call_bind, call_index hhigh, call_index hlow, hfield]
    split
    · rfl
    · split
      · rfl
      · simp only [call_bind]
  · rw [decode, call_get_bind, if_pos (Nat.lt_of_not_le hlength), declaredLength, if_neg hlength]
    rfl

/-- A call that is neither postponed nor rejected for its length decodes a
header, and takes the payload behind it. -/
theorem decode_of_declared {src : List UInt8} {length : ℕ}
    (hdeclared : declaredLength src = some length) (hwhole : length ≤ src.length)
    (hheader : headerBytes ≤ length) :
    (∃ header, call PacketHeader.decode src = (.ok header, src.drop headerBytes) ∧
      call decode src =
        (.ok (some { header := header
                     payload := (src.drop headerBytes).take (length - headerBytes) }),
          src.drop length)) ∨
      ∃ error rest, call decode src = (.error (.error error), rest) := by
  have hdecode := decode_eq src
  simp only [hdeclared, if_neg (Nat.not_lt.mpr hwhole), if_neg (Nat.not_lt.mpr hheader),
    call_bind] at hdecode
  rcases PacketHeader.decode_total (Nat.le_trans hheader hwhole) with
    ⟨header, hcall⟩ | ⟨error, rest, hcall⟩
  · refine Or.inl ⟨header, hcall, ?_⟩
    have hcount : length - headerBytes ≤ (src.drop headerBytes).length := by
      rw [List.length_drop]
      omega
    rw [hdecode, hcall]
    simp only [call_splitTo hcount, call_pure, List.drop_drop]
    rw [Nat.add_sub_cancel' hheader]
  · refine Or.inr ⟨error, rest, ?_⟩
    rw [hdecode, hcall]

/-- A declared length below that of a header is rejected before anything is
consumed. -/
theorem decode_of_short {src : List UInt8} {length : ℕ}
    (hdeclared : declaredLength src = some length) (hshort : length < headerBytes) :
    call decode src = (.error (.error (.protocol "Invalid packet length")), src) := by
  have hlength : headerBytes ≤ src.length := by
    by_contra hless
    rw [declaredLength, if_neg hless] at hdeclared
    cases hdeclared
  have hwhole : ¬src.length < length := by omega
  rw [decode_eq, hdeclared]
  simp only [if_neg hwhole, if_pos hshort]

/-- No buffer makes a call panic, and a call that asks for more leaves the
buffer as it was. -/
theorem decode_safe (src : List UInt8) :
    (call decode src).1 ≠ .error .panic ∧
      ((call decode src).1 = .ok none → (call decode src).2 = src) := by
  cases hdeclared : declaredLength src with
  | none =>
    rw [decode_eq, hdeclared]
    refine ⟨?_, fun _ => rfl⟩
    intro h
    cases h
  | some length =>
    by_cases hshort : src.length < length
    · have hcall : call decode src = (.ok none, src) := by
        rw [decode_eq, hdeclared]
        exact if_pos hshort
      rw [hcall]
      refine ⟨?_, fun _ => rfl⟩
      intro h
      cases h
    by_cases hheader : length < headerBytes
    · rw [decode_of_short hdeclared hheader]
      refine ⟨?_, fun _ => rfl⟩
      intro h
      cases h
    rcases decode_of_declared hdeclared (Nat.le_of_not_lt hshort) (Nat.le_of_not_lt hheader) with
      ⟨header, -, hcall⟩ | ⟨error, rest, hcall⟩
    · rw [hcall]
      constructor
      · intro h
        cases h
      · intro h
        cases h
    · rw [hcall]
      constructor
      · intro h
        cases h
      · intro h
        cases h

theorem decodeEof_of_some {src rest : List UInt8} {packet : Packet}
    (hcall : call decode src = (.ok (some packet), rest)) :
    call decodeEof src = (.ok (some packet), rest) := by
  rw [decodeEof, call_bind, hcall]
  rfl

theorem decodeEof_safe (src : List UInt8) : (call decodeEof src).1 ≠ .error .panic := by
  obtain ⟨hpanic, -⟩ := decode_safe src
  rw [decodeEof, call_bind]
  rcases hcall : call decode src with ⟨result, rest⟩
  rw [hcall] at hpanic
  cases result with
  | error fault => exact hpanic
  | ok frame =>
    cases frame with
    | some packet =>
      intro h
      cases h
    | none =>
      simp only [call_get_bind]
      split <;> intro h <;> cases h

end PacketCodec

/-- A packet under the length of its encoding. -/
def Packet.framed (packet : Packet) : Packet :=
  { packet with
    header :=
      { packet.header with
        length := UInt16.ofNat packet.payload.length + UInt16.ofNat headerBytes } }

theorem Packet.encode_framed (packet : Packet) :
    packet.encode [] = packet.framed.header.encode ++ packet.payload := by
  obtain ⟨a, b, hold⟩ := List.length_eq_two.mp (toBe_length 2 packet.header.length.toNat)
  obtain ⟨c, d, hnew⟩ := List.length_eq_two.mp (toBe_length 2
    (UInt16.ofNat packet.payload.length + UInt16.ofNat headerBytes).toNat)
  simp only [encode, patchLength, framed, PacketHeader.encode, hold, hnew, List.nil_append,
    List.cons_append, List.set_cons_succ, List.set_cons_zero, List.getD_cons_zero,
    List.getD_cons_succ]

namespace PacketCodec

variable {packet : Packet}

theorem encode_length_lt (hpayload : packet.payload.length ≤ 65527) :
    (packet.encode []).length < 2 ^ 16 := by
  rw [Packet.encode_nil_length, headerBytes]
  omega

theorem declaredLength_append {front : List UInt8} (hfront : headerBytes ≤ front.length)
    (rest : List UInt8) :
    declaredLength (front ++ rest) = some (Packet.lengthField front) := by
  have hlength : headerBytes ≤ (front ++ rest).length := by
    rw [List.length_append]
    omega
  rw [headerBytes] at hfront
  rw [declaredLength, if_pos hlength, Packet.lengthField, Packet.lengthField,
    List.drop_append_of_le_length (by omega), List.take_append_of_le_length]
  rw [List.length_drop]
  omega

/-- A packet at the front of the buffer is taken whole. -/
theorem decode_encode (hpayload : packet.payload.length ≤ 65527) (rest : List UInt8) :
    call decode (packet.encode [] ++ rest) = (.ok (some packet.framed), rest) := by
  have hlength := Packet.encode_nil_length packet
  have hfield := Packet.lengthField_encode (encode_length_lt hpayload)
  have hdeclared : declaredLength (packet.encode [] ++ rest) =
      some (packet.encode []).length := by
    rw [declaredLength_append (by omega), hfield]
  have hheader : call PacketHeader.decode (packet.encode [] ++ rest) =
      (.ok packet.framed.header, packet.payload ++ rest) := by
    rw [Packet.encode_framed, List.append_assoc]
    exact PacketHeader.decode_encode packet.framed.header (packet.payload ++ rest)
  have hwhole : ¬(packet.encode [] ++ rest).length < (packet.encode []).length := by
    rw [List.length_append]
    omega
  have hcount : (packet.encode []).length - headerBytes = packet.payload.length := by omega
  have hsplit : call (splitTo packet.payload.length) (packet.payload ++ rest) =
      (.ok packet.payload, rest) := by
    have hle : packet.payload.length ≤ (packet.payload ++ rest).length := by
      rw [List.length_append]
      omega
    rw [call_splitTo hle, List.take_left, List.drop_left]
  rw [decode_eq, hdeclared]
  simp only [if_neg hwhole, if_neg (show ¬(packet.encode []).length < headerBytes by omega),
    call_bind, hheader, hcount, hsplit, call_pure]
  rfl

/-- A packet that has arrived only in part is left for a later call. -/
theorem decode_unfinished (hpayload : packet.payload.length ≤ 65527) {front back : List UInt8}
    (hencode : packet.encode [] = front ++ back) (hback : back ≠ []) :
    call decode front = (.ok none, front) := by
  have hless : front.length < (packet.encode []).length := by
    rw [hencode, List.length_append]
    have := List.length_pos_iff.mpr hback
    omega
  rw [decode_eq]
  by_cases hheader : headerBytes ≤ front.length
  · have hdeclared : declaredLength front = some (packet.encode []).length := by
      have hfield := Packet.lengthField_encode (encode_length_lt hpayload)
      have hwhole : headerBytes ≤ (packet.encode []).length := by omega
      have hsame : declaredLength front = declaredLength (packet.encode []) := by
        rw [hencode, declaredLength_append hheader, declaredLength, if_pos hheader]
      rw [hsame, declaredLength, if_pos hwhole, hfield]
    rw [hdeclared]
    exact if_pos hless
  · rw [declaredLength, if_neg hheader]

/-- What happens to the read buffer: input arrives, or the codec is called. -/
inductive Event where
  | arrive (chunk : List UInt8)
  | decode

/-- The input that arrives in a list of events. -/
def input : List Event → List UInt8
  | [] => []
  | .arrive chunk :: rest => chunk ++ input rest
  | .decode :: rest => input rest

/-- The answers of the calls among the events, and the buffer after them. -/
def calls : List Event → List UInt8 → List (Except Fault (Option Packet)) × List UInt8
  | [], src => ([], src)
  | .arrive chunk :: rest, src => calls rest (src ++ chunk)
  | .decode :: rest, src =>
    let first := call decode src
    let later := calls rest first.2
    (first.1 :: later.1, later.2)

/-- The calls after the input has ended, repeated as long as they return a
packet. A packet takes at least a header, so a buffer has room for fewer of them
than it has bytes. -/
def callsEof : ℕ → List UInt8 → List (Except Fault (Option Packet)) × List UInt8
  | 0, src => ([], src)
  | fuel + 1, src =>
    match call decodeEof src with
    | (.ok (some packet), src) =>
      let later := callsEof fuel src
      (.ok (some packet) :: later.1, later.2)
    | (answer, src) => ([answer], src)

/-- The packets among the answers. -/
def received (answers : List (Except Fault (Option Packet))) : List Packet :=
  answers.filterMap fun answer =>
    match answer with
    | .ok packet => packet
    | .error _ => none

/-- What a packet is to its reader. -/
def contents (packet : Packet) : PacketType × PacketStatus × List UInt8 :=
  (packet.header.ty, packet.header.status, packet.payload)

/-- The bytes of packets, each encoded into a fresh buffer. -/
def encoded (packets : List Packet) : List UInt8 := packets.flatMap fun packet => packet.encode []

theorem contents_framed (packets : List Packet) :
    (packets.map Packet.framed).map contents = packets.map contents := by
  rw [List.map_map]
  rfl

section Stream

variable {packets : List Packet} (hpackets : ∀ packet ∈ packets, packet.payload.length ≤ 65527)
include hpackets

/-- One call while the input is still arriving: the buffer holds the front of
what is left, and the call takes the next packet once it is there. -/
theorem decode_step {src more : List UInt8} (hsrc : src ++ more = encoded packets) :
    call decode src = (.ok none, src) ∨
      ∃ packet left rest, packets = packet :: left ∧
        call decode src = (.ok (some packet.framed), rest) ∧ rest ++ more = encoded left := by
  cases packets with
  | nil =>
    obtain ⟨rfl, -⟩ := List.append_eq_nil_iff.mp hsrc
    exact Or.inl rfl
  | cons packet left =>
    have hpayload := hpackets packet List.mem_cons_self
    rw [encoded, List.flatMap_cons] at hsrc
    rcases List.append_eq_append_iff.mp hsrc with ⟨back, hencode, -⟩ | ⟨rest, rfl, hrest⟩
    · by_cases hback : back = []
      · subst hback
        rw [List.append_nil] at hencode
        subst hencode
        refine Or.inr ⟨packet, left, [], rfl, ?_, ?_⟩
        · simpa only [List.append_nil] using decode_encode hpayload []
        · exact List.append_cancel_left hsrc
      · exact Or.inl (decode_unfinished hpayload hencode hback)
    · exact Or.inr ⟨packet, left, rest, rfl, decode_encode hpayload rest, hrest.symm⟩

/-- Over a run of events the packets come out in order, and what is left of them
stands in the buffer. -/
theorem calls_received (events : List Event) {src : List UInt8}
    (hsrc : src ++ input events = encoded packets) :
    ∃ taken left, packets = taken ++ left ∧
      received (calls events src).1 = taken.map Packet.framed ∧
      (calls events src).2 = encoded left ∧
      ∀ answer ∈ (calls events src).1, ∃ frame, answer = .ok frame := by
  induction events generalizing src packets with
  | nil =>
    refine ⟨[], packets, rfl, rfl, ?_, fun answer hanswer => absurd hanswer List.not_mem_nil⟩
    simpa only [calls, input, List.append_nil] using hsrc
  | cons event rest ih =>
    cases event with
    | arrive chunk =>
      rw [input, ← List.append_assoc] at hsrc
      exact ih hpackets hsrc
    | decode =>
      rw [input] at hsrc
      rcases decode_step hpackets hsrc with hnone | ⟨packet, left, after, rfl, hsome, hafter⟩
      · obtain ⟨taken, left, hsplit, hreceived, hbuffer, hok⟩ := ih hpackets hsrc
        simp only [calls, hnone]
        refine ⟨taken, left, hsplit, hreceived, hbuffer, ?_⟩
        intro answer hanswer
        rcases List.mem_cons.mp hanswer with rfl | hlater
        · exact ⟨none, rfl⟩
        · exact hok answer hlater
      · obtain ⟨taken, others, rfl, hreceived, hbuffer, hok⟩ :=
          ih (fun p hp => hpackets p (List.mem_cons_of_mem packet hp)) hafter
        simp only [calls, hsome]
        refine ⟨packet :: taken, others, rfl, ?_, hbuffer, ?_⟩
        · rw [List.map_cons, ← hreceived]
          rfl
        · intro answer hanswer
          rcases List.mem_cons.mp hanswer with rfl | hlater
          · exact ⟨some packet.framed, rfl⟩
          · exact hok answer hlater

/-- At the end of the input the calls empty the buffer. -/
theorem callsEof_received {fuel : ℕ} (hfuel : packets.length < fuel) :
    callsEof fuel (encoded packets) =
      (packets.map (fun packet => .ok (some packet.framed)) ++ [.ok none], []) := by
  induction packets generalizing fuel with
  | nil =>
    obtain ⟨fuel, rfl⟩ : ∃ less, fuel = less + 1 := ⟨fuel - 1, by rw [List.length_nil] at hfuel; omega⟩
    rfl
  | cons packet left ih =>
    obtain ⟨fuel, rfl⟩ : ∃ less, fuel = less + 1 := ⟨fuel - 1, by omega⟩
    have hlater := ih (fun p hp => hpackets p (List.mem_cons_of_mem packet hp))
      (show left.length < fuel by rw [List.length_cons] at hfuel; omega)
    have hcall : call decodeEof (encoded (packet :: left)) =
        (.ok (some packet.framed), encoded left) := by
      apply decodeEof_of_some
      rw [encoded, List.flatMap_cons]
      exact decode_encode (hpackets packet List.mem_cons_self) _
    simp only [callsEof, hcall, hlater, List.map_cons, List.cons_append]

end Stream

theorem length_le_encoded (packets : List Packet) : packets.length ≤ (encoded packets).length := by
  induction packets with
  | nil => exact Nat.le_refl 0
  | cons packet left ih =>
    rw [encoded, List.flatMap_cons, List.length_append, Packet.encode_nil_length, headerBytes,
      List.length_cons]
    rw [encoded] at ih
    omega

/-- Cut anywhere and read by calls at any time, the packets of a stream come out
as they went in and nothing stays behind. On no buffer at all does a call go
past the end, consume what it does not take, or accept a length that cannot hold
a header. -/
theorem packets_through_codec :
    (∀ (packets : List Packet) (events : List Event),
      (∀ packet ∈ packets, packet.payload.length ≤ 65527) → input events = encoded packets →
        let during := calls events []
        let atEnd := callsEof (during.2.length + 1) during.2
        (received (during.1 ++ atEnd.1)).map contents = packets.map contents ∧
          (∀ answer ∈ during.1 ++ atEnd.1, ∃ frame, answer = .ok frame) ∧
          atEnd.1.getLast? = some (.ok none) ∧ atEnd.2 = []) ∧
      ∀ src : List UInt8,
        ((call decode src).1 = .ok none → (call decode src).2 = src) ∧
          (∀ length, declaredLength src = some length → length < headerBytes →
            ∃ error, call decode src = (.error (.error error), src)) ∧
          (call decode src).1 ≠ .error .panic ∧ (call decodeEof src).1 ≠ .error .panic := by
  constructor
  · intro packets events hpackets hinput
    have hstart : [] ++ input events = encoded packets := hinput
    obtain ⟨taken, left, rfl, hreceived, hbuffer, hok⟩ := calls_received hpackets events hstart
    have hleft : ∀ packet ∈ left, packet.payload.length ≤ 65527 :=
      fun packet hpacket => hpackets packet (List.mem_append_right taken hpacket)
    have hfuel : left.length < (encoded left).length + 1 := by
      have := length_le_encoded left
      omega
    have heof := callsEof_received hleft hfuel
    simp only [hbuffer, heof]
    refine ⟨?_, ?_, ?_, trivial⟩
    · have hlast : received (left.map (fun packet => .ok (some packet.framed)) ++ [.ok none]) =
          left.map Packet.framed := by
        rw [received, List.filterMap_append, List.filterMap_map, ← List.filterMap_eq_map]
        exact List.append_nil _
      have hall : received ((calls events []).1 ++
          (left.map (fun packet => .ok (some packet.framed)) ++ [.ok none])) =
          (taken ++ left).map Packet.framed := by
        rw [received, List.filterMap_append, ← received, ← received, hreceived, hlast,
          List.map_append]
      rw [hall, contents_framed]
    · intro answer hanswer
      rcases List.mem_append.mp hanswer with hduring | hend
      · exact hok answer hduring
      · rcases List.mem_append.mp hend with hpacket | hnone
        · obtain ⟨packet, -, rfl⟩ := List.mem_map.mp hpacket
          exact ⟨some packet.framed, rfl⟩
        · exact ⟨none, List.mem_singleton.mp hnone⟩
    · exact List.getLast?_concat
  · intro src
    obtain ⟨hpanic, hnone⟩ := decode_safe src
    refine ⟨hnone, ?_, hpanic, decodeEof_safe src⟩
    intro length hdeclared hshort
    exact ⟨_, decode_of_short hdeclared hshort⟩

/-- Two packets cut inside a header and inside a payload, with calls in between. -/
theorem packets_through_codec_cut :
    (∃ error, call decode [1, 0, 0, 7, 0, 0, 1, 0] =
        (.error (.error error), [1, 0, 0, 7, 0, 0, 1, 0])) ∧
      received ((calls [.arrive [1, 0, 0], .decode, .arrive [10, 0, 0, 1, 0, 5], .decode,
        .arrive [6, 18, 1, 0, 8, 0, 0, 2, 0], .decode] []).1 ++
          (callsEof 9 [18, 1, 0, 8, 0, 0, 2, 0]).1) =
        [{ header := { PacketHeader.batch 1 with length := 10 }, payload := [5, 6] },
          { header := { PacketHeader.preLogin 2 with length := 8 }, payload := [] }] ∧
      (callsEof 9 [18, 1, 0, 8, 0, 0, 2, 0]).2 = [] := by
  have hgeneral := packets_through_codec.1
    [{ header := .batch 1, payload := [5, 6] }, { header := .preLogin 2, payload := [] }]
    [.arrive [1, 0, 0], .decode, .arrive [10, 0, 0, 1, 0, 5], .decode,
      .arrive [6, 18, 1, 0, 8, 0, 0, 2, 0], .decode] (by decide) (by decide)
  refine ⟨(packets_through_codec.2 [1, 0, 0, 7, 0, 0, 1, 0]).2.1 7 (by decide) (by decide), ?_, ?_⟩
  · decide
  · exact hgeneral.2.2.2

end PacketCodec

end Tiberius
