import Tiberius.Handshake

/-!
Reading through the handshake wrapper. A header is gathered in a buffer of its
own, over as many calls as it takes to arrive, and the library is given what
comes behind it, up to the length that the header declares.
-/

namespace Tiberius

open Reading

namespace TlsPreloginWrapper

/-- A call that reads: the wrapper and the arrivals behind it, and the bytes it
has put into the buffer of the caller. -/
structure Read where
  wrapper : TlsPreloginWrapper
  arrivals : List (Arrival UInt8)
  answer : Ready (Except Fault (List UInt8))

inductive Gathered where
  | complete (wrapper : TlsPreloginWrapper) (arrivals : List (Arrival UInt8))
  | over (read : Read)

/-- What the inner stream has read goes to `header_buf[header_pos..]`. -/
def keepHeader (wrapper : TlsPreloginWrapper) (bytes : List UInt8) : TlsPreloginWrapper :=
  { wrapper with
    headerBuf := wrapper.headerBuf.take wrapper.headerPos ++ bytes ++
      wrapper.headerBuf.drop (wrapper.headerPos + bytes.length)
    headerPos := wrapper.headerPos + bytes.length }

def gatherHeader : ℕ → TlsPreloginWrapper → List (Arrival UInt8) → Gathered
  | 0, wrapper, arrivals =>
    .over { wrapper := wrapper, arrivals := arrivals, answer := .ready (.error .panic) }
  | fuel + 1, wrapper, arrivals =>
    if wrapper.headerBuf.length ≤ wrapper.headerPos then .complete wrapper arrivals
    else
      match pollSome (wrapper.headerBuf.length - wrapper.headerPos) arrivals with
      | (.pending, arrivals) =>
        .over { wrapper := wrapper, arrivals := arrivals, answer := .pending }
      | (.ready [], arrivals) =>
        .over { wrapper := wrapper, arrivals := arrivals, answer := .ready (.ok []) }
      | (.ready bytes, arrivals) => gatherHeader fuel (wrapper.keepHeader bytes) arrivals

def announced (headerBuf : List UInt8) : Except Fault ℕ :=
  match (OnBuffer.call PacketHeader.decode headerBuf).1 with
  | .error (.error error) => .error (.error (.io .other error.display))
  | .error .panic => .error .panic
  | .ok header =>
    if header.ty ≠ .preLogin then
      .error (.error (.io .invalidData "expected a pre-login packet during the TLS handshake"))
    else if header.length.toNat < headerBytes then
      .error (.error (.io .invalidData "pre-login packet length shorter than its header"))
    else .ok (header.length.toNat - headerBytes)

def readPayload (wrapper : TlsPreloginWrapper) (arrivals : List (Arrival UInt8)) (size : ℕ) :
    Read :=
  match pollSome (min wrapper.readRemaining size) arrivals with
  | (.pending, arrivals) => { wrapper := wrapper, arrivals := arrivals, answer := .pending }
  | (.ready bytes, arrivals) =>
    let readRemaining := wrapper.readRemaining - bytes.length
    { wrapper :=
        { wrapper with
          readRemaining := readRemaining
          headerPos := if readRemaining = 0 then 0 else wrapper.headerPos }
      arrivals := arrivals
      answer := .ready (.ok bytes) }

def pollRead (wrapper : TlsPreloginWrapper) (arrivals : List (Arrival UInt8)) (size : ℕ) : Read :=
  if wrapper.pendingHandshake then
    if wrapper.headerBuf.length ≤ wrapper.headerPos then wrapper.readPayload arrivals size
    else
      match gatherHeader (headerBytes + 1) wrapper arrivals with
      | .over read => read
      | .complete wrapper arrivals =>
        match announced wrapper.headerBuf with
        | .error fault =>
          { wrapper := wrapper, arrivals := arrivals, answer := .ready (.error fault) }
        | .ok readRemaining =>
          readPayload { wrapper with readRemaining := readRemaining } arrivals size
  else
    match pollSome size arrivals with
    | (.pending, arrivals) => { wrapper := wrapper, arrivals := arrivals, answer := .pending }
    | (.ready bytes, arrivals) =>
      { wrapper := wrapper, arrivals := arrivals, answer := .ready (.ok bytes) }

def pollReads (wrapper : TlsPreloginWrapper) (arrivals : List (Arrival UInt8)) :
    List ℕ → List Read
  | [] => []
  | size :: sizes =>
    let read := wrapper.pollRead arrivals size
    read :: pollReads read.wrapper read.arrivals sizes

def Read.bytes (read : Read) : List UInt8 :=
  match read.answer with
  | .ready (.ok bytes) => bytes
  | _ => []

/-- The bytes that have been kept of a header and those that will arrive. -/
structure Halfway (wrapper : TlsPreloginWrapper) (arrivals : List (Arrival UInt8))
    (bytes : List UInt8) : Prop where
  pending : wrapper.pendingHandshake = true
  length : wrapper.headerBuf.length = headerBytes
  within : wrapper.headerPos ≤ headerBytes
  kept : wrapper.headerBuf.take wrapper.headerPos ++ arriving arrivals = bytes
  solid : Solid arrivals

theorem keepHeader_halfway {wrapper : TlsPreloginWrapper} {arrivals rest : List (Arrival UInt8)}
    {symbols bytes : List UInt8} (hhalf : Halfway wrapper arrivals bytes)
    (hfits : symbols.length ≤ wrapper.headerBuf.length - wrapper.headerPos)
    (harriving : symbols ++ arriving rest = arriving arrivals) (hsolid : Solid rest) :
    Halfway (wrapper.keepHeader symbols) rest bytes := by
  obtain ⟨hpending, hlength, hwithin, hkept, -⟩ := hhalf
  have htake : (wrapper.headerBuf.take wrapper.headerPos ++ symbols).length =
      wrapper.headerPos + symbols.length := by
    rw [List.length_append, List.length_take, hlength, Nat.min_eq_left hwithin]
  refine ⟨hpending, ?_, ?_, ?_, hsolid⟩
  · simp only [keepHeader, List.length_append, List.length_take, List.length_drop]
    omega
  · simp only [keepHeader]
    omega
  · simp only [keepHeader]
    rw [← htake, List.take_left, List.append_assoc, harriving, hkept]

/-- Gathering a header ends with the header, or with a poll that has to wait, or
with the end of a stream that holds no whole header. -/
theorem gatherHeader_spec {bytes : List UInt8} (fuel : ℕ) (wrapper : TlsPreloginWrapper)
    (arrivals : List (Arrival UInt8)) (hhalf : Halfway wrapper arrivals bytes)
    (hfuel : headerBytes - wrapper.headerPos < fuel) :
    (∃ wrapper' rest, gatherHeader fuel wrapper arrivals = .complete wrapper' rest ∧
      Halfway wrapper' rest bytes ∧ wrapper'.headerPos = headerBytes ∧
      waits rest = waits arrivals) ∨
    (∃ wrapper' rest, gatherHeader fuel wrapper arrivals =
        .over { wrapper := wrapper', arrivals := rest, answer := .pending } ∧
      Halfway wrapper' rest bytes ∧ wrapper'.headerPos < headerBytes ∧
      waits rest + 1 = waits arrivals) ∨
    ∃ wrapper', gatherHeader fuel wrapper arrivals =
        .over { wrapper := wrapper', arrivals := [], answer := .ready (.ok []) } ∧
      Halfway wrapper' [] bytes ∧ wrapper'.headerPos < headerBytes ∧ waits arrivals = 0 := by
  induction fuel generalizing wrapper arrivals with
  | zero => omega
  | succ fuel ih =>
    have hlength := hhalf.length
    by_cases hfull : wrapper.headerBuf.length ≤ wrapper.headerPos
    · refine .inl ⟨wrapper, arrivals, if_pos hfull, hhalf, ?_, rfl⟩
      exact Nat.le_antisymm hhalf.within (hlength ▸ hfull)
    · have hmissing : 0 < wrapper.headerBuf.length - wrapper.headerPos := by omega
      rw [gatherHeader, if_neg hfull]
      rcases pollSome_cases hmissing hhalf.solid with ⟨rfl, hpoll⟩ | ⟨rest, hpoll, hsolid,
        harriving, hwaits⟩ | ⟨symbols, rest, hpoll, hsolid, hne, hfits, harriving, hwaits⟩
      · rw [hpoll]
        exact .inr (.inr ⟨wrapper, rfl, hhalf, by omega, rfl⟩)
      · rw [hpoll]
        refine .inr (.inl ⟨wrapper, rest, rfl, ?_, by omega, hwaits⟩)
        exact ⟨hhalf.pending, hlength, hhalf.within, harriving ▸ hhalf.kept, hsolid⟩
      · rw [hpoll]
        have hpos := List.length_pos_iff.mpr hne
        have hnext := keepHeader_halfway hhalf hfits harriving hsolid
        have hrec := ih (wrapper.keepHeader symbols) rest hnext
          (by simp only [keepHeader]; omega)
        rw [hwaits] at hrec
        obtain ⟨symbol, symbols, rfl⟩ := List.exists_cons_of_ne_nil hne
        exact hrec

theorem announced_encode {packet : Packet} (hwhole : Whole packet) :
    announced packet.header.encode = .ok packet.payload.length := by
  have hdecode := PacketHeader.decode_encode packet.header []
  rw [List.append_nil] at hdecode
  have hlong : ¬packet.header.length.toNat < headerBytes := by
    rw [hwhole.2]
    omega
  rw [announced, hdecode]
  simp only
  rw [if_neg (not_not_intro hwhole.1), if_neg hlong, hwhole.2, Nat.add_sub_cancel_left]

/-- What the reader is still to be given: whole packets, in front of which a
header may be half read or a payload half returned. -/
inductive Expecting (wrapper : TlsPreloginWrapper) (arrivals : List (Arrival UInt8))
    (left : List UInt8) : Prop where
  | header (packets : List Packet)
      (hpackets : ∀ packet ∈ packets, Whole packet ∧ packet.payload ≠ [])
      (hhalf : Halfway wrapper arrivals (packets.flatMap wire))
      (hpos : wrapper.headerPos < headerBytes) (hleft : left = packets.flatMap Packet.payload)
  | payload (packets : List Packet) (rest : List UInt8)
      (hpackets : ∀ packet ∈ packets, Whole packet ∧ packet.payload ≠ [])
      (hpending : wrapper.pendingHandshake = true)
      (hlength : wrapper.headerBuf.length = headerBytes) (hpos : wrapper.headerPos = headerBytes)
      (hremaining : wrapper.readRemaining = rest.length) (hne : rest ≠ [])
      (hsolid : Solid arrivals) (harriving : arriving arrivals = rest ++ packets.flatMap wire)
      (hleft : left = rest ++ packets.flatMap Packet.payload)

/-- A call is told to wait, or returns bytes of the payloads, or finds the stream
at its end with nothing left. -/
inductive Returns (arrivals : List (Arrival UInt8)) (left : List UInt8) (read : Read) : Prop where
  | waiting (hanswer : read.answer = .pending)
      (hexpecting : Expecting read.wrapper read.arrivals left)
      (hwaits : waits read.arrivals + 1 = waits arrivals)
  | some (bytes behind : List UInt8) (hanswer : read.answer = .ready (.ok bytes)) (hne : bytes ≠ [])
      (hleft : left = bytes ++ behind) (hexpecting : Expecting read.wrapper read.arrivals behind)
      (hwaits : waits read.arrivals = waits arrivals)
  | ended (hanswer : read.answer = .ready (.ok [])) (hleft : left = [])
      (hend : read.arrivals = []) (hexpecting : Expecting read.wrapper read.arrivals left)
      (hwaits : waits arrivals = 0)

theorem Returns.of_waits {arrivals arrivals' : List (Arrival UInt8)} {left : List UInt8}
    {read : Read} (hreturns : Returns arrivals left read)
    (hwaits : waits arrivals = waits arrivals') :
    Returns arrivals' left read := by
  cases hreturns with
  | waiting hanswer hexpecting hless => exact .waiting hanswer hexpecting (hless.trans hwaits)
  | some bytes behind hanswer hne hleft hexpecting hsame =>
    exact .some bytes behind hanswer hne hleft hexpecting (hsame.trans hwaits)
  | ended hanswer hleft hend hexpecting hzero =>
    exact .ended hanswer hleft hend hexpecting (hwaits ▸ hzero)

/-- A call that says nothing has found the end, and any other call brings the
end nearer. -/
theorem Returns.progress {arrivals : List (Arrival UInt8)} {left : List UInt8} {read : Read}
    (hreturns : Returns arrivals left read) :
    ∃ behind, read.bytes ++ behind = left ∧ Expecting read.wrapper read.arrivals behind ∧
      waits read.arrivals + behind.length ≤ waits arrivals + left.length - 1 := by
  cases hreturns with
  | waiting hanswer hexpecting hwaits =>
    refine ⟨left, ?_, hexpecting, by omega⟩
    rw [Read.bytes, hanswer]
    rfl
  | some bytes behind hanswer hne hleft hexpecting hwaits =>
    have hpos := List.length_pos_iff.mpr hne
    have hlength := congrArg List.length hleft
    rw [List.length_append] at hlength
    refine ⟨behind, ?_, hexpecting, by omega⟩
    rw [Read.bytes, hanswer, hleft]
  | ended hanswer hleft hend hexpecting hwaits =>
    subst hleft
    refine ⟨[], ?_, hexpecting, ?_⟩
    · rw [Read.bytes, hanswer]
      rfl
    · rw [hend]
      exact Nat.zero_le _

theorem Returns.answers {arrivals : List (Arrival UInt8)} {left : List UInt8} {read : Read}
    (hreturns : Returns arrivals left read) :
    (read.answer = .pending ∨ ∃ bytes, read.answer = .ready (.ok bytes)) ∧
      (read.answer = .ready (.ok []) → read.arrivals = [] ∧ left = []) := by
  cases hreturns with
  | waiting hanswer =>
    refine ⟨.inl hanswer, fun hnil => ?_⟩
    rw [hanswer] at hnil
    cases hnil
  | some bytes behind hanswer hne =>
    refine ⟨.inr ⟨bytes, hanswer⟩, fun hnil => ?_⟩
    rw [hanswer] at hnil
    cases hnil
    exact absurd rfl hne
  | ended hanswer hleft hend => exact ⟨.inr ⟨[], hanswer⟩, fun _ => ⟨hend, hleft⟩⟩

theorem readPayload_returns {wrapper : TlsPreloginWrapper} {arrivals : List (Arrival UInt8)}
    {packets : List Packet} {rest : List UInt8} {size : ℕ} (hsize : 0 < size)
    (hpackets : ∀ packet ∈ packets, Whole packet ∧ packet.payload ≠ [])
    (hpending : wrapper.pendingHandshake = true) (hlength : wrapper.headerBuf.length = headerBytes)
    (hpos : wrapper.headerPos = headerBytes) (hremaining : wrapper.readRemaining = rest.length)
    (hne : rest ≠ []) (hsolid : Solid arrivals)
    (harriving : arriving arrivals = rest ++ packets.flatMap wire) :
    Returns arrivals (rest ++ packets.flatMap Packet.payload)
      (wrapper.readPayload arrivals size) := by
  have hrest := List.length_pos_iff.mpr hne
  have hmost : 0 < min wrapper.readRemaining size := by omega
  rw [readPayload]
  rcases pollSome_cases hmost hsolid with ⟨rfl, -⟩ | ⟨others, hpoll, hsolid', harriving', hwaits⟩ |
    ⟨bytes, others, hpoll, hsolid', hbytes, hfits, harriving', hwaits⟩
  · exact absurd (List.append_eq_nil_iff.mp harriving.symm).1 hne
  · rw [hpoll]
    exact .waiting rfl (.payload packets rest hpackets hpending hlength hpos hremaining hne hsolid'
      (harriving'.trans harriving) rfl) hwaits
  · rw [hpoll]
    have hshort : bytes.length ≤ rest.length := by omega
    obtain ⟨behind, rfl, hbehind⟩ : ∃ behind, rest = bytes ++ behind ∧
        arriving others = behind ++ packets.flatMap wire := by
      have hsame := harriving'.trans harriving
      have hfront := List.prefix_of_prefix_length_le (List.prefix_append bytes (arriving others))
        (hsame ▸ List.prefix_append rest _) hshort
      obtain ⟨behind, rfl⟩ := hfront
      rw [List.append_assoc] at hsame
      exact ⟨behind, rfl, List.append_cancel_left hsame⟩
    have hleft : wrapper.readRemaining - bytes.length = behind.length := by
      rw [hremaining, List.length_append, Nat.add_sub_cancel_left]
    refine .some bytes (behind ++ packets.flatMap Packet.payload) rfl hbytes
      (List.append_assoc _ _ _) ?_ hwaits
    by_cases hnil : behind = []
    · subst hnil
      have hzero : (if wrapper.readRemaining - bytes.length = 0 then 0 else wrapper.headerPos) =
          0 := if_pos hleft
      refine .header packets hpackets ⟨hpending, hlength, ?_, ?_, hsolid'⟩ ?_ rfl
      · simp only [hzero]
        exact Nat.zero_le _
      · simp only [hzero, List.take_zero, List.nil_append]
        exact hbehind
      · simp only [hzero]
        exact Nat.zero_lt_succ _
    · have hpositive := List.length_pos_iff.mpr hnil
      refine .payload packets behind hpackets hpending hlength ?_ hleft hnil hsolid' hbehind rfl
      simp only
      rw [if_neg (by omega)]
      exact hpos

theorem pollRead_returns {wrapper : TlsPreloginWrapper} {arrivals : List (Arrival UInt8)}
    {left : List UInt8} {size : ℕ} (hsize : 0 < size)
    (hexpecting : Expecting wrapper arrivals left) :
    Returns arrivals left (wrapper.pollRead arrivals size) := by
  cases hexpecting with
  | payload packets rest hpackets hpending hlength hpos hremaining hne hsolid harriving hleft =>
    subst hleft
    have hfull : wrapper.headerBuf.length ≤ wrapper.headerPos := by omega
    rw [pollRead, if_pos hpending, if_pos hfull]
    exact readPayload_returns hsize hpackets hpending hlength hpos hremaining hne hsolid harriving
  | header packets hpackets hhalf hpos hleft =>
    subst hleft
    have hlength := hhalf.length
    have hmissing : ¬wrapper.headerBuf.length ≤ wrapper.headerPos := by omega
    rw [pollRead, if_pos hhalf.pending, if_neg hmissing]
    rcases gatherHeader_spec (headerBytes + 1) wrapper arrivals hhalf (by omega) with
      ⟨wrapper', rest, hgather, hhalf', hpos', hwaits⟩ |
      ⟨wrapper', rest, hgather, hhalf', hpos', hwaits⟩ |
      ⟨wrapper', hgather, hhalf', hpos', hwaits⟩
    · -- a whole header has been gathered, so there is a packet it belongs to
      rw [hgather]
      have hkept := hhalf'.kept
      have hlength' := hhalf'.length
      rw [hpos', ← hlength', List.take_length] at hkept
      cases packets with
      | nil =>
        have hnil := congrArg List.length hkept
        rw [List.length_append, hlength', headerBytes, List.flatMap_nil, List.length_nil] at hnil
        omega
      | cons packet packets =>
        obtain ⟨hwhole, hne⟩ := hpackets packet List.mem_cons_self
        rw [List.flatMap_cons, wire, List.append_assoc] at hkept
        obtain ⟨hheader, harriving⟩ := List.append_inj hkept
          (hlength'.trans (PacketHeader.encode_length _).symm)
        have hannounced : announced wrapper'.headerBuf = .ok packet.payload.length := by
          rw [hheader]
          exact announced_encode hwhole
        simp only
        rw [hannounced]
        have hreturns := @readPayload_returns
          { wrapper' with readRemaining := packet.payload.length } rest packets packet.payload size
          hsize (fun other hother => hpackets other (List.mem_cons_of_mem packet hother))
          hhalf'.pending hlength' hpos' rfl hne hhalf'.solid harriving
        exact hreturns.of_waits hwaits
    · rw [hgather]
      exact .waiting rfl (.header packets hpackets hhalf' hpos' rfl) hwaits
    · rw [hgather]
      cases packets with
      | nil => exact .ended rfl rfl rfl (.header [] hpackets hhalf' hpos' rfl) hwaits
      | cons packet packets =>
        exfalso
        have hlong := congrArg List.length hhalf'.kept
        simp only [arriving, List.append_nil, List.length_take, List.flatMap_cons, wire,
          List.length_append, PacketHeader.encode_length] at hlong
        omega

theorem pollReads_returns {wrapper : TlsPreloginWrapper} {arrivals : List (Arrival UInt8)}
    {left : List UInt8} (sizes : List ℕ) (hsizes : ∀ size ∈ sizes, 0 < size)
    (hexpecting : Expecting wrapper arrivals left) :
    (∀ read ∈ wrapper.pollReads arrivals sizes,
      read.answer = .pending ∨ ∃ bytes, read.answer = .ready (.ok bytes)) ∧
    (∃ behind, (wrapper.pollReads arrivals sizes).flatMap Read.bytes ++ behind = left ∧
      (waits arrivals + left.length ≤ sizes.length → behind = [])) ∧
    ∀ before read after, wrapper.pollReads arrivals sizes = before ++ read :: after →
      read.answer = .ready (.ok []) → read.arrivals = [] ∧ before.flatMap Read.bytes = left := by
  induction sizes generalizing wrapper arrivals left with
  | nil =>
    refine ⟨?_, ⟨left, rfl, ?_⟩, ?_⟩
    · intro read hread
      cases hread
    · intro henough
      rw [List.length_nil] at henough
      exact List.length_eq_zero_iff.mp (by omega)
    · intro before read after hsplit
      exact absurd hsplit.symm (List.append_ne_nil_of_right_ne_nil _ (List.cons_ne_nil _ _))
  | cons size sizes ih =>
    have hreturns := pollRead_returns (hsizes size List.mem_cons_self) hexpecting
    have hrest := fun other hother => hsizes other (List.mem_cons_of_mem size hother)
    obtain ⟨middle, hfirst, hexpecting', hless⟩ := hreturns.progress
    obtain ⟨hanswer, hnothing⟩ := hreturns.answers
    obtain ⟨hanswers, ⟨behind, hbehind, henough⟩, hends⟩ := ih hrest hexpecting'
    refine ⟨?_, ⟨behind, ?_, ?_⟩, ?_⟩
    · intro read hread
      rcases List.mem_cons.mp hread with rfl | hread
      · exact hanswer
      · exact hanswers read hread
    · rw [pollReads, List.flatMap_cons, List.append_assoc, hbehind, hfirst]
    · intro hsize
      rw [List.length_cons] at hsize
      exact henough (by omega)
    · intro before read after hsplit hnil
      rw [pollReads] at hsplit
      cases before with
      | nil =>
        obtain ⟨rfl, -⟩ := List.cons.inj hsplit
        obtain ⟨hend, rfl⟩ := hnothing hnil
        exact ⟨hend, rfl⟩
      | cons other before =>
        obtain ⟨hother, htail⟩ := List.cons.inj hsplit
        obtain ⟨hend, hall⟩ := hends before read after htail hnil
        refine ⟨hend, ?_⟩
        rw [List.flatMap_cons, hall, ← hother, hfirst]

/-- The reader is given the payloads of the packets, whatever pieces they arrive
in and whatever the sizes of its buffers are: no call fails, what is returned is
a first part of the payloads and, after enough calls, all of them, and only a
call that finds the stream at its end returns nothing. -/
theorem handshake_reads_payloads (packets : List Packet) (arrivals : List (Arrival UInt8))
    (sizes : List ℕ) (hwhole : ∀ packet ∈ packets, Whole packet)
    (hpayload : ∀ packet ∈ packets, packet.payload ≠ []) (hsolid : Solid arrivals)
    (harriving : arriving arrivals = packets.flatMap wire) (hsizes : ∀ size ∈ sizes, 0 < size) :
    (∀ read ∈ new.pollReads arrivals sizes,
      read.answer = .pending ∨ ∃ bytes, read.answer = .ready (.ok bytes)) ∧
    (new.pollReads arrivals sizes).flatMap Read.bytes <+: packets.flatMap Packet.payload ∧
    (waits arrivals + (packets.flatMap Packet.payload).length ≤ sizes.length →
      (new.pollReads arrivals sizes).flatMap Read.bytes = packets.flatMap Packet.payload) ∧
    ∀ before read after, new.pollReads arrivals sizes = before ++ read :: after →
      read.answer = .ready (.ok []) →
        read.arrivals = [] ∧ before.flatMap Read.bytes = packets.flatMap Packet.payload := by
  have hhalf : Halfway new arrivals (packets.flatMap wire) :=
    ⟨rfl, rfl, Nat.zero_le _, harriving, hsolid⟩
  have hexpecting : Expecting new arrivals (packets.flatMap Packet.payload) :=
    .header packets (fun packet hpacket => ⟨hwhole packet hpacket, hpayload packet hpacket⟩) hhalf
      (Nat.zero_lt_succ _) rfl
  obtain ⟨hanswers, ⟨behind, hbehind, henough⟩, hends⟩ := pollReads_returns sizes hsizes hexpecting
  refine ⟨hanswers, ⟨behind, hbehind⟩, ?_, hends⟩
  intro hsize
  rw [← hbehind, henough hsize, List.append_nil]

def smallPacket : Packet where
  header := { PacketHeader.preLogin 0 with length := 10 }
  payload := [5, 6]

def smallArrivals : List (Arrival UInt8) :=
  [.piece [0x12, 1, 0], .pending, .piece [10, 0, 0, 0, 0, 5], .pending, .piece [6]]

theorem handshake_reads_payloads_cut :
    (new.pollReads smallArrivals [1, 4, 1, 2]).flatMap Read.bytes = [5, 6] := by
  have hsolid : Solid smallArrivals := by
    intro symbols hmem
    rintro rfl
    revert hmem
    decide
  have hwhole : ∀ packet ∈ [smallPacket], Whole packet := by
    intro packet hpacket
    obtain rfl := List.mem_singleton.mp hpacket
    exact ⟨rfl, rfl⟩
  exact (handshake_reads_payloads [smallPacket] smallArrivals [1, 4, 1, 2] hwhole (by decide)
    hsolid rfl (by decide)).2.2.1 (by decide)

end TlsPreloginWrapper

end Tiberius
