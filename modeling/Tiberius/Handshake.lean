import Tiberius.PacketCodec
import Tiberius.Reading.Runs
import Tiberius.Reading.Streams

/-!
The stream that stands between the TLS library and the connection during the
handshake. What the library writes is gathered behind eight bytes left free for
a header and goes out as one pre-login packet when it flushes; of what comes in,
the library sees the payloads only. Once the handshake is over, every call goes
to the connection as it is.
-/

namespace Tiberius

open Reading

structure TlsPreloginWrapper where
  pendingHandshake : Bool
  headerBuf : List UInt8
  headerPos : ℕ
  readRemaining : ℕ
  wrBuf : List UInt8
  headerWritten : Bool
  deriving DecidableEq, Repr

namespace TlsPreloginWrapper

def placeholder : List UInt8 := List.replicate headerBytes 0

def new : TlsPreloginWrapper where
  pendingHandshake := true
  headerBuf := placeholder
  headerPos := 0
  readRemaining := 0
  wrBuf := placeholder
  headerWritten := false

def handshakeComplete (wrapper : TlsPreloginWrapper) : TlsPreloginWrapper :=
  { wrapper with pendingHandshake := false }

/-- A call that writes: the wrapper behind it, the bytes that the inner stream
has taken, and the answer. -/
structure Write (α : Type) where
  wrapper : TlsPreloginWrapper
  taken : List UInt8
  answer : Ready (Except Fault α)

/-- `poll_write`. The counts tell how many bytes the inner stream takes, each one
more than the count, when the call is passed on to it. -/
def pollWrite (wrapper : TlsPreloginWrapper) (buf : List UInt8) (counts : List ℕ) : Write ℕ :=
  if wrapper.pendingHandshake then
    { wrapper := { wrapper with wrBuf := wrapper.wrBuf ++ buf }
      taken := []
      answer := .ready (.ok buf.length) }
  else
    match counts with
    | [] => { wrapper := wrapper, taken := [], answer := .pending }
    | count :: _ =>
      { wrapper := wrapper
        taken := buf.take (count + 1)
        answer := .ready (.ok (buf.take (count + 1)).length) }

def packetHeader (length : ℕ) : PacketHeader :=
  { PacketHeader.new (UInt16.ofNat length) 0 with ty := .preLogin, status := .endOfMessage }

/-- The header goes over the first eight bytes of the buffer. A length that does
not fit its field is asserted away. -/
def stamp (wrBuf : List UInt8) : Except Fault (List UInt8) :=
  if wrBuf.length < 2 ^ 16 then
    .ok ((packetHeader wrBuf.length).encode ++ wrBuf.drop headerBytes)
  else .error .panic

/-- `poll_flush`, with what the inner stream takes in this call and how it
answers to being flushed itself. -/
def pollFlush (wrapper : TlsPreloginWrapper) (counts : List ℕ) (flush : Ready (Except Fault Unit)) :
    Write Unit :=
  if wrapper.pendingHandshake ∧ headerBytes < wrapper.wrBuf.length then
    match if wrapper.headerWritten then .ok wrapper.wrBuf else stamp wrapper.wrBuf with
    | .error fault => { wrapper := wrapper, taken := [], answer := .ready (.error fault) }
    | .ok wrBuf =>
      let (taken, left) := drain wrBuf counts
      if left.isEmpty then
        { wrapper := { wrapper with wrBuf := placeholder, headerWritten := false }
          taken := taken
          answer := flush }
      else
        { wrapper := { wrapper with wrBuf := left, headerWritten := true }
          taken := taken
          answer := .pending }
  else { wrapper := wrapper, taken := [], answer := flush }

/-- A flush of a packet either gets all of it out and asks the inner stream to
flush, or is left waiting with the rest of it. -/
theorem pollFlush_sends {wrapper : TlsPreloginWrapper} {bytes : List UInt8} (counts : List ℕ)
    (flush : Ready (Except Fault Unit)) (hpending : wrapper.pendingHandshake = true)
    (hlong : headerBytes < wrapper.wrBuf.length)
    (hbytes : (if wrapper.headerWritten then .ok wrapper.wrBuf else stamp wrapper.wrBuf) =
      .ok bytes) :
    wrapper.pollFlush counts flush =
        { wrapper := { wrapper with wrBuf := placeholder, headerWritten := false }
          taken := bytes
          answer := flush } ∨
      ∃ taken left, taken ++ left = bytes ∧ wrapper.pollFlush counts flush =
        { wrapper := { wrapper with wrBuf := left, headerWritten := true }
          taken := taken
          answer := .pending } := by
  have happend := drain_append bytes counts
  unfold pollFlush
  rw [if_pos ⟨hpending, hlong⟩, hbytes]
  simp only
  by_cases hleft : (drain bytes counts).2 = []
  · left
    rw [hleft, List.append_nil] at happend
    rw [hleft, happend]
    rfl
  · right
    refine ⟨_, _, happend, ?_⟩
    rw [List.isEmpty_eq_false_iff.mpr hleft]
    rfl

def wire (packet : Packet) : List UInt8 := packet.header.encode ++ packet.payload

def Whole (packet : Packet) : Prop :=
  packet.header.ty = .preLogin ∧ packet.header.length.toNat = headerBytes + packet.payload.length

end TlsPreloginWrapper

open TlsPreloginWrapper

inductive WriteCall where
  | pollWrite (buf : List UInt8)
  | pollFlush (counts : List ℕ) (flush : Ready (Except Fault Unit))

/-- A handshake in progress, as far as it writes: the wrapper, all that the inner
stream has taken, all that has been passed to `poll_write` and how much of it
since a flush was last completed, and whether the last call completed one. -/
structure Handshake where
  wrapper : TlsPreloginWrapper
  accepted : List UInt8
  passed : List UInt8
  unflushed : ℕ
  completed : Bool

namespace Handshake

def start : Handshake where
  wrapper := .new
  accepted := []
  passed := []
  unflushed := 0
  completed := false

/-- The state behind a flush: the bytes passed count anew from one that has been
completed. -/
def afterFlush (state : Handshake) (call : Write Unit) : Handshake :=
  let completed := call.answer = .ready (.ok ())
  { wrapper := call.wrapper
    accepted := state.accepted ++ call.taken
    passed := state.passed
    unflushed := if completed then 0 else state.unflushed
    completed := completed }

/-- One call. Between two completed flushes no more is written than a packet
holds. -/
def step (state : Handshake) : WriteCall → Option Handshake
  | .pollWrite buf =>
    if state.unflushed + buf.length ≤ 65527 then
      let call := state.wrapper.pollWrite buf []
      some
        { wrapper := call.wrapper
          accepted := state.accepted ++ call.taken
          passed := state.passed ++ buf
          unflushed := state.unflushed + buf.length
          completed := false }
    else none
  | .pollFlush counts flush => some (state.afterFlush (state.wrapper.pollFlush counts flush))

/-- What has gone out is whole pre-login packets with their lengths, and their
payloads are what has been passed to `poll_write`. -/
def Framed (state : Handshake) : Prop :=
  ∃ packets : List Packet, (∀ packet ∈ packets, Whole packet) ∧
    state.accepted = packets.flatMap wire ∧ state.passed = packets.flatMap Packet.payload

/-- The calls that keep the packets whole: nothing is added while a packet is on
its way, and a flush that finds no more of it than the size of a header is not
answered as if all were out. -/
def Meets (state : Handshake) : WriteCall → Prop
  | .pollWrite buf => buf = [] ∨ state.wrapper.headerWritten = false
  | .pollFlush _ flush => state.wrapper.headerWritten = true →
      headerBytes < state.wrapper.wrBuf.length ∨ flush ≠ .ready (.ok ())

def wrap (payload : List UInt8) : Packet where
  header := packetHeader (headerBytes + payload.length)
  payload := payload

theorem whole_wrap {payload : List UInt8} (hlength : payload.length ≤ 65527) :
    Whole (wrap payload) := by
  refine ⟨rfl, ?_⟩
  simp only [wrap, packetHeader, PacketHeader.new]
  apply UInt16.toNat_ofNat_of_lt'
  rw [UInt16.size, headerBytes]
  omega

/-- A buffer with bytes behind the placeholder is stamped to a packet. -/
theorem stamp_placeholder {payload : List UInt8} (hlength : payload.length ≤ 65527) :
    stamp (placeholder ++ payload) = .ok (wire (wrap payload)) := by
  have hplace : placeholder.length = headerBytes := List.length_replicate
  have hfits : (placeholder ++ payload).length < 2 ^ 16 := by
    rw [List.length_append, hplace, headerBytes]
    omega
  have hdrop : (placeholder ++ payload).drop headerBytes = payload := by
    rw [← hplace, List.drop_left]
  rw [stamp, if_pos hfits, hdrop, List.length_append, hplace]
  rfl

/-- Where the bytes passed so far are: in packets that are out, and in a buffer
behind the placeholder or in a packet of which a part is out. -/
inductive Progress (state : Handshake) (packets : List Packet) : Prop where
  | gathering (buffered : List UInt8) (hwritten : state.wrapper.headerWritten = false)
      (hbuffer : state.wrapper.wrBuf = placeholder ++ buffered)
      (haccepted : state.accepted = packets.flatMap wire)
      (hpassed : state.passed = packets.flatMap Packet.payload ++ buffered)
      (hlength : buffered.length ≤ state.unflushed)
  | sending (payload sent : List UInt8) (hwritten : state.wrapper.headerWritten = true)
      (hbuffer : sent ++ state.wrapper.wrBuf = wire (wrap payload))
      (haccepted : state.accepted = packets.flatMap wire ++ sent)
      (hpassed : state.passed = packets.flatMap Packet.payload ++ payload)
      (hlength : payload.length ≤ 65527)

structure Sound (state : Handshake) : Prop where
  pending : state.wrapper.pendingHandshake = true
  limit : state.unflushed ≤ 65527
  progress : ∃ packets, (∀ packet ∈ packets, Whole packet) ∧ Progress state packets
  framed : state.completed = true → Framed state

theorem sound_start : Sound start where
  pending := rfl
  limit := Nat.zero_le _
  progress := by
    refine ⟨[], ?_, .gathering [] rfl rfl rfl rfl (Nat.le_refl _)⟩
    intro packet hpacket
    cases hpacket
  framed := by
    intro hcompleted
    cases hcompleted

theorem sound_pollWrite {state next : Handshake} {buf : List UInt8} (hsound : Sound state)
    (hmeets : Meets state (.pollWrite buf)) (hstep : state.step (.pollWrite buf) = some next) :
    Sound next := by
  obtain ⟨hpending, hlimit, ⟨packets, hwhole, hprogress⟩, -⟩ := hsound
  simp only [step, pollWrite, hpending, if_true, List.append_nil] at hstep
  split at hstep
  next hfits =>
    cases hstep
    refine ⟨rfl, hfits, ⟨packets, hwhole, ?_⟩, ?_⟩
    · cases hprogress with
      | gathering buffered hwritten hbuffer haccepted hpassed hlength =>
        refine .gathering (buffered ++ buf) hwritten ?_ haccepted ?_ ?_
        · simp only [hbuffer, List.append_assoc]
        · simp only [hpassed, List.append_assoc]
        · rw [List.length_append]
          exact Nat.add_le_add_right hlength _
      | sending payload sent hwritten hbuffer haccepted hpassed hlength =>
        rcases hmeets with rfl | hnot
        · refine .sending payload sent hwritten ?_ haccepted ?_ hlength
          · rw [List.append_nil]
            exact hbuffer
          · change state.passed ++ [] = _
            rw [List.append_nil]
            exact hpassed
        · rw [hwritten] at hnot
          cases hnot
    · intro hcompleted
      cases hcompleted
  next => cases hstep

/-- A flush that leaves nothing behind the placeholder is sound whatever the
inner stream answers. -/
theorem sound_gathered {state : Handshake} {call : Write Unit} {packets : List Packet}
    (hpending : call.wrapper.pendingHandshake = true) (hlimit : state.unflushed ≤ 65527)
    (hwritten : call.wrapper.headerWritten = false) (hbuffer : call.wrapper.wrBuf = placeholder)
    (hwhole : ∀ packet ∈ packets, Whole packet)
    (haccepted : state.accepted ++ call.taken = packets.flatMap wire)
    (hpassed : state.passed = packets.flatMap Packet.payload) :
    Sound (state.afterFlush call) where
  pending := hpending
  limit := by
    simp only [afterFlush]
    split
    · exact Nat.zero_le _
    · exact hlimit
  progress := by
    refine ⟨packets, hwhole, .gathering [] hwritten ?_ haccepted ?_ (Nat.zero_le _)⟩
    · rw [List.append_nil]
      exact hbuffer
    · rw [List.append_nil]
      exact hpassed
  framed := fun _ => ⟨packets, hwhole, haccepted, hpassed⟩

theorem sound_waiting {state : Handshake} {call : Write Unit} {packets : List Packet}
    {payload sent : List UInt8} (hpending : call.wrapper.pendingHandshake = true)
    (hlimit : state.unflushed ≤ 65527) (hanswer : call.answer ≠ .ready (.ok ()))
    (hwritten : call.wrapper.headerWritten = true)
    (hbuffer : sent ++ call.taken ++ call.wrapper.wrBuf = wire (wrap payload))
    (hwhole : ∀ packet ∈ packets, Whole packet)
    (haccepted : state.accepted = packets.flatMap wire ++ sent)
    (hpassed : state.passed = packets.flatMap Packet.payload ++ payload)
    (hlength : payload.length ≤ 65527) : Sound (state.afterFlush call) where
  pending := hpending
  limit := by
    simp only [afterFlush, if_neg hanswer]
    exact hlimit
  progress := by
    refine ⟨packets, hwhole, .sending payload (sent ++ call.taken) hwritten hbuffer ?_ hpassed
      hlength⟩
    simp only [afterFlush, haccepted, List.append_assoc]
  framed := by
    intro hcompleted
    exact absurd (of_decide_eq_true hcompleted) hanswer

/-- A flush that has a packet to send, some of which may be out already. -/
theorem sound_sends {state : Handshake} {packets : List Packet} {payload sent bytes : List UInt8}
    (counts : List ℕ) (flush : Ready (Except Fault Unit))
    (hpending : state.wrapper.pendingHandshake = true) (hlimit : state.unflushed ≤ 65527)
    (hlong : headerBytes < state.wrapper.wrBuf.length)
    (hbytes : (if state.wrapper.headerWritten then .ok state.wrapper.wrBuf
      else stamp state.wrapper.wrBuf) = .ok bytes)
    (hpacket : sent ++ bytes = wire (wrap payload)) (hwhole : ∀ packet ∈ packets, Whole packet)
    (haccepted : state.accepted = packets.flatMap wire ++ sent)
    (hpassed : state.passed = packets.flatMap Packet.payload ++ payload)
    (hlength : payload.length ≤ 65527) :
    Sound (state.afterFlush (state.wrapper.pollFlush counts flush)) := by
  rcases pollFlush_sends counts flush hpending hlong hbytes with
    hcall | ⟨taken, left, hsplit, hcall⟩
  · have hall : ∀ packet ∈ packets ++ [wrap payload], Whole packet := by
      intro packet hmem
      rcases List.mem_append.mp hmem with hmem | hmem
      · exact hwhole packet hmem
      · obtain rfl := List.mem_singleton.mp hmem
        exact whole_wrap hlength
    rw [hcall]
    refine sound_gathered hpending hlimit rfl rfl hall ?_ ?_
    · simp only [haccepted, List.append_assoc, hpacket, List.flatMap_append, List.flatMap_cons,
        List.flatMap_nil, List.append_nil]
    · simp only [hpassed, List.flatMap_append, List.flatMap_cons, List.flatMap_nil,
        List.append_nil, wrap]
  · rw [hcall]
    refine sound_waiting hpending hlimit ?_ rfl ?_ hwhole haccepted hpassed hlength
    · intro hanswer
      cases hanswer
    · rw [List.append_assoc, hsplit]
      exact hpacket

theorem sound_pollFlush {state next : Handshake} {counts : List ℕ}
    {flush : Ready (Except Fault Unit)} (hsound : Sound state)
    (hmeets : Meets state (.pollFlush counts flush))
    (hstep : state.step (.pollFlush counts flush) = some next) : Sound next := by
  obtain ⟨hpending, hlimit, ⟨packets, hwhole, hprogress⟩, -⟩ := hsound
  obtain rfl := Option.some.inj hstep
  have hidle : ¬headerBytes < state.wrapper.wrBuf.length → state.wrapper.pollFlush counts flush =
      { wrapper := state.wrapper, taken := [], answer := flush } := by
    intro hshort
    rw [pollFlush, if_neg fun h => hshort h.2]
  cases hprogress with
  | gathering buffered hwritten hbuffer haccepted hpassed hlength =>
    have hsize : state.wrapper.wrBuf.length = headerBytes + buffered.length := by
      rw [hbuffer, List.length_append, placeholder, List.length_replicate]
    by_cases hlong : headerBytes < state.wrapper.wrBuf.length
    · have hstamp : stamp state.wrapper.wrBuf = .ok (wire (wrap buffered)) := by
        rw [hbuffer]
        exact stamp_placeholder (Nat.le_trans hlength hlimit)
      refine @sound_sends state packets buffered [] _ counts flush hpending hlimit hlong ?_ rfl
        hwhole ?_ hpassed (Nat.le_trans hlength hlimit)
      · rw [hwritten]
        exact hstamp
      · rw [List.append_nil]
        exact haccepted
    · obtain rfl : buffered = [] := List.length_eq_zero_iff.mp (by omega)
      rw [List.append_nil] at hbuffer hpassed
      rw [hidle hlong]
      refine sound_gathered hpending hlimit hwritten hbuffer hwhole ?_ hpassed
      rw [List.append_nil]
      exact haccepted
  | sending payload sent hwritten hbuffer haccepted hpassed hlength =>
    by_cases hlong : headerBytes < state.wrapper.wrBuf.length
    · refine sound_sends counts flush hpending hlimit hlong ?_ hbuffer hwhole haccepted hpassed
        hlength
      rw [hwritten]
      rfl
    · -- the guard of the source skips the rest of the packet here
      have hanswer := (hmeets hwritten).resolve_left hlong
      rw [hidle hlong]
      refine sound_waiting hpending hlimit hanswer hwritten ?_ hwhole haccepted hpassed hlength
      rw [List.append_nil]
      exact hbuffer

/-- In every run whose calls meet the condition, what is out when a flush has
been completed is whole packets with what was passed to `poll_write`. -/
theorem completed_flush_framed {state : Handshake} (hreach : Reached step Meets start state)
    (hcompleted : state.completed = true) : Framed state := by
  refine (hreach.keeps Sound sound_start ?_).framed hcompleted
  intro state call next hsound hmeets hstep
  cases call with
  | pollWrite buf => exact sound_pollWrite hsound hmeets hstep
  | pollFlush counts flush => exact sound_pollFlush hsound hmeets hstep

/-- Ten bytes are written and flushed; the inner stream takes half a header
first, makes the wrapper wait, and takes the rest at the next flush. -/
def interruptedFlush : List WriteCall :=
  [.pollWrite [1, 2, 3, 4, 5, 6, 7, 8, 9, 10], .pollFlush [3] (.ready (.ok ())),
    .pollFlush [13] (.ready (.ok ()))]

theorem completed_flush_framed_interrupted :
    ∃ state, perform step start interruptedFlush = some state ∧ state.completed = true ∧
      Framed state := by
  refine ⟨_, rfl, rfl, completed_flush_framed ?_ rfl⟩
  refine Relation.ReflTransGen.head ⟨.pollWrite [1, 2, 3, 4, 5, 6, 7, 8, 9, 10], .inr rfl, rfl⟩ ?_
  refine Relation.ReflTransGen.head ⟨.pollFlush [3] (.ready (.ok ())), ?_, rfl⟩ ?_
  · intro hwritten
    cases hwritten
  · exact Relation.ReflTransGen.head
      ⟨.pollFlush [13] (.ready (.ok ())), fun _ => .inl (by decide), rfl⟩ .refl

/-- A byte is written and flushed, and the inner stream takes one byte before it
makes the wrapper wait: what is left is as long as a header. -/
def stoppedFlush : List WriteCall :=
  [.pollWrite [7], .pollFlush [0] (.ready (.ok ())), .pollFlush [7] (.ready (.ok ()))]

/-- The flush that is called again skips what is left and reports success. -/
theorem stoppedFlush_unframed :
    ∃ state, Reached step (fun _ _ => True) start state ∧ state.completed = true ∧
      ¬Framed state := by
  refine ⟨_, Reached.of_perform stoppedFlush rfl, rfl, ?_⟩
  rintro ⟨packets, -, haccepted, -⟩
  change ([0x12] : List UInt8) = _ at haccepted
  cases packets with
  | nil => cases haccepted
  | cons packet packets =>
    have hlength := congrArg List.length haccepted
    simp only [List.flatMap_cons, wire, List.length_append, PacketHeader.encode_length, headerBytes,
      List.length_singleton] at hlength
    omega

end Handshake

end Tiberius
