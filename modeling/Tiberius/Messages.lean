import Tiberius.OnTheWire

/-!
The messages that stand on a wire, as the other side puts them together: packets are
taken off by the codec, and their payloads are joined up to a packet that ends a
message. What has been written of a message that is not whole is not one.
-/

namespace Tiberius

open OnBuffer PacketCodec Reading

namespace PacketCodec

/-- The packets that the codec takes from a buffer, until it asks for more. -/
def taken : ℕ → List UInt8 → List Packet
  | 0, _ => []
  | fuel + 1, src =>
    match call decode src with
    | (.ok (some packet), rest) => packet :: taken fuel rest
    | _ => []

theorem taken_nil (fuel : ℕ) : taken fuel [] = [] := by
  cases fuel <;> rfl

/-- Whole packets at the front of a buffer are taken. -/
theorem taken_append {packets : List Packet}
    (hpackets : ∀ packet ∈ packets, packet.payload.length ≤ 65527) (fuel : ℕ)
    (rest : List UInt8) :
    taken (packets.length + fuel) (encoded packets ++ rest) =
      packets.map Packet.framed ++ taken fuel rest := by
  induction packets with
  | nil => rw [List.length_nil, Nat.zero_add]; rfl
  | cons packet packets ih =>
    have hdecode := decode_encode (hpackets packet List.mem_cons_self)
      (encoded packets ++ rest)
    have hmore := ih fun other hother => hpackets other (List.mem_cons_of_mem packet hother)
    rw [List.length_cons, Nat.add_right_comm, encoded, List.flatMap_cons, List.append_assoc, taken]
    rw [encoded] at hdecode
    rw [hdecode]
    simp only [List.map_cons, List.cons_append]
    rw [← hmore, encoded]

/-- Of packets that have arrived in part the first ones are taken, and not all. -/
theorem taken_part {packets : List Packet}
    (hpackets : ∀ packet ∈ packets, packet.payload.length ≤ 65527) (fuel : ℕ)
    {part back : List UInt8} (hpart : part ++ back = encoded packets) (hback : back ≠ []) :
    ∃ whole left, packets = whole ++ left ∧ left ≠ [] ∧
      taken fuel part = whole.map Packet.framed := by
  have hne : packets ≠ [] := by
    rintro rfl
    exact hback (List.append_eq_nil_iff.mp hpart).2
  induction fuel generalizing packets part with
  | zero => exact ⟨[], packets, rfl, hne, rfl⟩
  | succ fuel ih =>
    rcases decode_step hpackets hpart with hnone | ⟨packet, left, rest, rfl, hsome, hrest⟩
    · refine ⟨[], packets, rfl, hne, ?_⟩
      rw [taken, hnone]
      rfl
    · have hleft : left ≠ [] := by
        rintro rfl
        exact hback (List.append_eq_nil_iff.mp hrest).2
      obtain ⟨whole, others, rfl, hothers, htaken⟩ :=
        ih (fun other hother => hpackets other (List.mem_cons_of_mem packet hother)) hrest hleft
      refine ⟨packet :: whole, others, rfl, hothers, ?_⟩
      rw [taken, hsome, List.map_cons, ← htaken]

end PacketCodec

/-- A message as its receiver has it. -/
structure Message where
  ty : PacketType
  payload : List UInt8
  deriving DecidableEq, Repr

namespace Message

/-- The messages that packets make up, the first one of which has begun already. -/
def assemble : List UInt8 → List Packet → List Message
  | _, [] => []
  | buf, packet :: rest =>
    if packet.isLast then
      { ty := packet.header.ty, payload := buf ++ packet.payload } :: assemble [] rest
    else assemble (buf ++ packet.payload) rest

/-- The whole messages on a wire. -/
def onWire (wire : List UInt8) : List Message := assemble [] (taken wire.length wire)

theorem assemble_framed (buf : List UInt8) (packets : List Packet) :
    assemble buf (packets.map Packet.framed) = assemble buf packets := by
  induction packets generalizing buf with
  | nil => rfl
  | cons packet rest ih =>
    simp only [List.map_cons, assemble, ih]
    rfl

theorem assemble_packetsOf (header : PacketHeader) {pieces : List (List UInt8)}
    (hpieces : pieces ≠ []) (buf : List UInt8) (rest : List Packet) :
    assemble buf (packetsOf header pieces ++ rest) =
      { ty := header.ty, payload := buf ++ pieces.flatten } :: assemble [] rest := by
  induction pieces generalizing buf with
  | nil => exact absurd rfl hpieces
  | cons piece more ih =>
    rw [packetsOf, List.cons_append, assemble]
    by_cases hmore : more = []
    · subst hmore
      rw [List.flatten_singleton]
      rfl
    · have hempty : more.isEmpty = false := List.isEmpty_eq_false_iff.mpr hmore
      simp only [hempty, Packet.isLast, PacketHeader.setStatus, Bool.false_eq_true, if_false,
        reduceCtorEq, decide_false]
      rw [ih hmore, List.flatten_cons, List.append_assoc]

/-- Without its last packet a message is none. -/
theorem assemble_part (header : PacketHeader) {pieces : List (List UInt8)}
    {whole left : List Packet} (hsplit : packetsOf header pieces = whole ++ left)
    (hleft : left ≠ []) (buf : List UInt8) : assemble buf whole = [] := by
  induction whole generalizing pieces buf with
  | nil => rfl
  | cons packet whole ih =>
    cases pieces with
    | nil => cases hsplit
    | cons piece more =>
      rw [packetsOf, List.cons_append, List.cons.injEq] at hsplit
      obtain ⟨rfl, hsplit⟩ := hsplit
      have hmore : more.isEmpty = false := by
        rw [List.isEmpty_eq_false_iff]
        rintro rfl
        exact hleft (List.append_eq_nil_iff.mp hsplit.symm).2
      simp only [assemble, hmore, Packet.isLast, PacketHeader.setStatus, Bool.false_eq_true,
        if_false, reduceCtorEq, decide_false]
      exact ih hsplit _

end Message

/-- A message as it goes out: packets that its receiver puts together again, and has
nothing of until the last one is there. -/
structure Letter where
  message : Message
  packets : List Packet
  payload_length_le : ∀ packet ∈ packets, packet.payload.length ≤ 65527
  assemble_packets : ∀ rest, Message.assemble [] (packets ++ rest) =
    message :: Message.assemble [] rest
  assemble_part : ∀ whole left, packets = whole ++ left → left ≠ [] →
    Message.assemble [] whole = []

namespace Letter

theorem assemble_all (letters : List Letter) (rest : List Packet) :
    Message.assemble [] (letters.flatMap packets ++ rest) =
      letters.map message ++ Message.assemble [] rest := by
  induction letters with
  | nil => rfl
  | cons letter letters ih =>
    rw [List.flatMap_cons, List.append_assoc, letter.assemble_packets, ih]
    rfl

/-- What a part of a letter adds to a wire: no message, as long as it is not whole. -/
def Unfinished (part : List UInt8) : Prop :=
  part = [] ∨ ∃ letter : Letter, ∃ back, part ++ back = encoded letter.packets ∧ back ≠ []

/-- Letters that have been written one after the other are there for the reader, and a
part of one more is not. -/
theorem onWire_eq (letters : List Letter) {part : List UInt8} (hpart : Unfinished part) :
    Message.onWire (encoded (letters.flatMap packets) ++ part) = letters.map message := by
  have hpackets : ∀ packet ∈ letters.flatMap packets, packet.payload.length ≤ 65527 := by
    intro packet hpacket
    obtain ⟨letter, -, hmem⟩ := List.mem_flatMap.mp hpacket
    exact letter.payload_length_le packet hmem
  have hlength := length_le_encoded (letters.flatMap packets)
  obtain ⟨fuel, hfuel⟩ : ∃ fuel, (encoded (letters.flatMap packets) ++ part).length =
      (letters.flatMap packets).length + fuel := by
    rw [List.length_append]
    exact ⟨_, (Nat.add_sub_cancel' (Nat.le_trans hlength (Nat.le_add_right _ _))).symm⟩
  rw [Message.onWire, hfuel, taken_append hpackets]
  rcases hpart with rfl | ⟨last, back, hlast, hback⟩
  · rw [taken_nil, List.append_nil, Message.assemble_framed]
    have hall := assemble_all letters []
    rwa [List.append_nil, Message.assemble, List.append_nil] at hall
  · obtain ⟨whole, left, hsplit, hleft, htaken⟩ := taken_part last.payload_length_le fuel hlast hback
    rw [htaken, ← List.map_append, Message.assemble_framed, assemble_all,
      last.assemble_part whole left hsplit hleft, List.append_nil]

end Letter

/-- A message handed to the framer: a payload, the header of its packets, and the
size that it is cut into. -/
structure Framing where
  header : PacketHeader
  chunk : ℕ
  payload : List UInt8
  chunk_pos : 0 < chunk
  chunk_le : chunk ≤ 65527
  payload_ne : payload ≠ []

namespace Framing

def packets (framing : Framing) : List Packet :=
  messagePackets framing.header framing.chunk framing.payload

def message (framing : Framing) : Message where
  ty := framing.header.ty
  payload := framing.payload

theorem payload_length_le (framing : Framing) :
    ∀ packet ∈ framing.packets, packet.payload.length ≤ 65527 := fun packet hpacket =>
  Nat.le_trans (messagePackets_length_le framing.header framing.chunk framing.payload packet
    hpacket) framing.chunk_le

theorem assemble_packets (framing : Framing) (rest : List Packet) :
    Message.assemble [] (framing.packets ++ rest) =
      framing.message :: Message.assemble [] rest := by
  rw [packets, messagePackets, Message.assemble_packetsOf framing.header
    (chunksOf_ne_nil framing.payload_ne (Nat.le_refl _)), List.nil_append,
    chunksOf_flatten framing.chunk_pos _ _ (Nat.le_refl _)]
  rfl

/-- What the framer makes of a message goes out as a letter. -/
def letter (framing : Framing) : Letter where
  message := framing.message
  packets := framing.packets
  payload_length_le := framing.payload_length_le
  assemble_packets := framing.assemble_packets
  assemble_part := fun _ _ hsplit hleft =>
    Message.assemble_part framing.header hsplit hleft []

/-- What a part of a message adds to a wire: no message, as long as it is not whole. -/
def Unfinished (part : List UInt8) : Prop :=
  part = [] ∨ ∃ framing : Framing, ∃ back, part ++ back = encoded framing.packets ∧ back ≠ []

theorem Unfinished.letter {part : List UInt8} (hpart : Unfinished part) :
    Letter.Unfinished part :=
  hpart.imp id fun ⟨framing, back, hback, hne⟩ => ⟨framing.letter, back, hback, hne⟩

/-- Messages that have been written one after the other are there for the reader, and
a part of one more is not. -/
theorem onWire_eq (framings : List Framing) {part : List UInt8} (hpart : Unfinished part) :
    Message.onWire (encoded (framings.flatMap packets) ++ part) = framings.map message := by
  have hwhole := Letter.onWire_eq (framings.map letter) hpart.letter
  rwa [List.flatMap_map, List.map_map] at hwhole

theorem onWire_whole (framings : List Framing) :
    Message.onWire (encoded (framings.flatMap packets)) = framings.map message := by
  have hwhole := onWire_eq framings (.inl rfl)
  rwa [List.append_nil] at hwhole

end Framing

end Tiberius
