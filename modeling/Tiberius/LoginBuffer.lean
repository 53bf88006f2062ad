import Tiberius.LoginFields
import Tiberius.Writing.Reserved

/-!
The buffer of the login message. The encoder is written here once more on the
vector that `encode_to_boxed_slice` has reserved, with every write and every move
of the cursor as a recorded step, and the closing assertion on the capacity of the
vector itself. It leaves what the encoder leaves on an unbounded list, and since
that is as long as `encoded_len` says, the vector never moves.
-/

namespace Tiberius

open Reading Reader Program Writing Machine

variable {limit : ℕ}

/-- A program on the buffer of the message. -/
abbrev LoginWriter (limit : ℕ) (α : Type) : Type := Recorded (VecCursor UInt8 limit) α

def recordUnits : List UInt16 → LoginWriter limit Unit
  | [] => pure ()
  | unit :: units => do
    Recorded.write 0 (toLe 2 unit.toNat)
    recordUnits units

def recordPieces : List (List UInt8) → LoginWriter limit Unit
  | [] => pure ()
  | bytes :: pieces => do
    Recorded.write 0 bytes
    recordPieces pieces

/-- The position of the entry of the extension, which is the sixth. -/
def recordExtension (i feaExtOffset : ℕ) : LoginWriter limit ℕ :=
  if i = 5 then Recorded.position else pure feaExtOffset

/-- The password is prepared where it stands. -/
def recordObfuscation (i start stop : ℕ) : LoginWriter limit Unit :=
  if i = 2 then Recorded.mapRange obfuscate start stop else pure ()

/-- An entry whose data have been written, and the data of the field behind it. -/
def recordText (i : ℕ) (value : String) (dataOffset : ℕ) : LoginWriter limit ℕ := do
  let bak ← Recorded.position
  Recorded.seek dataOffset
  recordUnits (encodeUtf16 value.toList)
  let newPosition ← Recorded.position
  recordObfuscation i dataOffset newPosition
  let length := newPosition - dataOffset
  Recorded.seek bak
  Recorded.write 0 (toLe 2 (UInt16.ofNat length / 2).toNat)
  pure (dataOffset + length)

namespace LoginMessage

def recordSspi (msg : LoginMessage) (dataOffset : ℕ) : LoginWriter limit ℕ :=
  match msg.integratedSecurity with
  | some bytes => do
    let bak ← Recorded.position
    Recorded.seek dataOffset
    Recorded.write 0 bytes
    Recorded.seek bak
    Recorded.write 0 (toLe 2 (UInt16.ofNat bytes.length).toNat)
    pure (dataOffset + bytes.length)
  | none => do
    Recorded.write 0 (toLe 2 0)
    pure dataOffset

/-- One turn of the loop over `var_data`, with the offset of the next data and the
entry of the extension. -/
def recordField (msg : LoginMessage) (i : ℕ) (value : String) (dataOffset feaExtOffset : ℕ) :
    LoginWriter limit (ℕ × ℕ) := do
  let feaExtOffset ← recordExtension i feaExtOffset
  if i = 9 then do
    Recorded.write 0 (toLe 4 0)
    Recorded.write 0 (toLe 2 42)
    pure (dataOffset, feaExtOffset)
  else do
    Recorded.write 0 (toLe 2 (UInt16.ofNat dataOffset).toNat)
    let dataOffset ← (if i = 10 then msg.recordSspi dataOffset else recordText i value dataOffset)
    pure (dataOffset, feaExtOffset)

def recordFields (msg : LoginMessage) : ℕ → List String → ℕ × ℕ → LoginWriter limit (ℕ × ℕ)
  | _, [], offsets => pure offsets
  | i, value :: values, (dataOffset, feaExtOffset) => do
    let offsets ← msg.recordField i value dataOffset feaExtOffset
    msg.recordFields (i + 1) values offsets

end LoginMessage

def FedAuthExt.recordNonce (ext : FedAuthExt) : LoginWriter limit Unit :=
  match ext.nonce with
  | some nonce => Recorded.write 0 nonce.toList
  | none => pure ()

/-- The entry of the extension, the pointer it leads to, and the feature data. -/
def FedAuthExt.record (ext : FedAuthExt) (dataOffset feaExtOffset : ℕ) :
    LoginWriter limit Unit := do
  Recorded.seek feaExtOffset
  Recorded.write 0 (toLe 2 (UInt16.ofNat dataOffset).toNat)
  Recorded.write 0 (toLe 2 4)
  Recorded.seek dataOffset
  let dataOffset := dataOffset + 4
  Recorded.write 0 (toLe 4 (UInt32.ofNat dataOffset).toNat)
  Recorded.write 0 [0x02]
  let token := putUnits (encodeUtf16 ext.fedAuthToken.toList)
  let featureExtLength := 1 + 4 + token.length + if ext.nonce.isSome then 32 else 0
  Recorded.write 0 (toLe 4 (UInt32.ofNat featureExtLength).toNat)
  Recorded.write 0 [ext.options]
  Recorded.write 0 (toLe 4 (UInt32.ofNat token.length).toNat)
  Recorded.write 0 token
  ext.recordNonce
  Recorded.write 0 [0xFF]

namespace LoginMessage

def recordFeature (msg : LoginMessage) (dataOffset feaExtOffset : ℕ) : LoginWriter limit Unit :=
  match msg.fedAuthExt with
  | some ext => ext.record dataOffset feaExtOffset
  | none => pure ()

/-- Everything that is written, with the length in front last. -/
def recordMessage (msg : LoginMessage) : LoginWriter limit Unit := do
  recordPieces msg.fixedPart
  let start ← Recorded.position
  let offsets ← msg.recordFields 0 msg.varData (start + msg.varData.length * 2 * 2 + 6, 0)
  Recorded.write 0 (toLe 4 0)
  msg.recordFeature offsets.1 offsets.2
  Recorded.seek 0
  let length ← Recorded.length
  Recorded.write 0 (toLe 4 (UInt32.ofNat length).toNat)

/-- `encode_to_boxed_slice` on the vector that has been reserved: the capacity is noted
before anything is written, and compared in the end. -/
def encodeReserved (msg : LoginMessage) : LoginWriter limit Unit := do
  let reservedCapacity ← Recorded.capacity
  msg.recordMessage
  let capacity ← Recorded.capacity
  if capacity = reservedCapacity then pure () else Recorded.abort

end LoginMessage

open Recorded

theorem does_recordUnits (units : List UInt16) :
    Does (recordUnits units : LoginWriter limit Unit)
      fun cursor => ((), writeUnits units cursor) := by
  induction units with
  | nil => exact does_ret ()
  | cons unit units ih => exact does_bind (does_write 0 _) fun _ => ih

theorem does_recordPieces (pieces : List (List UInt8)) :
    Does (recordPieces pieces : LoginWriter limit Unit) fun cursor =>
      ((), pieces.foldl (fun cursor bytes => cursor.write 0 bytes) cursor) := by
  induction pieces with
  | nil => exact does_ret ()
  | cons bytes pieces ih => exact does_bind (does_write 0 _) fun _ => ih

theorem does_recordExtension (i feaExtOffset : ℕ) :
    Does (recordExtension i feaExtOffset : LoginWriter limit ℕ)
      fun cursor => (if i = 5 then cursor.pos else feaExtOffset, cursor) := by
  unfold recordExtension
  split_ifs
  · exact does_position
  · exact does_ret feaExtOffset

theorem does_recordObfuscation (i start stop : ℕ) :
    Does (recordObfuscation i start stop : LoginWriter limit Unit)
      fun cursor => ((), if i = 2 then cursor.mapRange obfuscate start stop else cursor) := by
  unfold recordObfuscation
  split_ifs
  · exact does_mapRange obfuscate start stop
  · exact does_ret ()

theorem does_recordText (i : ℕ) (value : String) (dataOffset : ℕ) :
    Does (recordText i value dataOffset : LoginWriter limit ℕ) fun cursor =>
      let written := writeUnits (encodeUtf16 value.toList) (cursor.seek dataOffset)
      let cleared := if i = 2 then written.mapRange obfuscate dataOffset written.pos else written
      let length := written.pos - dataOffset
      (dataOffset + length,
        (cleared.seek cursor.pos).write 0 (toLe 2 (UInt16.ofNat length / 2).toNat)) := by
  unfold recordText
  simp only [Recorded.bind_eq, Recorded.pure_eq]
  apply Does.congr
  · apply does_bind does_position
    intro bak
    apply does_bind (does_seek dataOffset)
    intro _
    apply does_bind (does_recordUnits _)
    intro _
    apply does_bind does_position
    intro newPosition
    apply does_bind (does_recordObfuscation i dataOffset newPosition)
    intro _
    apply does_bind (does_seek bak)
    intro _
    apply does_bind (does_write 0 _)
    intro _
    exact does_ret _
  · intro cursor
    rfl

namespace LoginMessage

theorem does_recordSspi (msg : LoginMessage) (dataOffset : ℕ) :
    Does (msg.recordSspi dataOffset : LoginWriter limit ℕ) fun cursor =>
      match msg.integratedSecurity with
      | some bytes =>
        (dataOffset + bytes.length,
          (((cursor.seek dataOffset).write 0 bytes).seek cursor.pos).write 0
            (toLe 2 (UInt16.ofNat bytes.length).toNat))
      | none => (dataOffset, cursor.write 0 (toLe 2 0)) := by
  unfold recordSspi
  cases msg.integratedSecurity with
  | none =>
    simp only [Recorded.bind_eq, Recorded.pure_eq]
    exact does_bind (does_write 0 _) fun _ => does_ret dataOffset
  | some bytes =>
    simp only [Recorded.bind_eq, Recorded.pure_eq]
    apply Does.congr
    · apply does_bind does_position
      intro bak
      apply does_bind (does_seek dataOffset)
      intro _
      apply does_bind (does_write 0 bytes)
      intro _
      apply does_bind (does_seek bak)
      intro _
      apply does_bind (does_write 0 _)
      intro _
      exact does_ret _
    · intro cursor
      rfl

/-- One turn of the loop does what it does on an unbounded list. -/
theorem does_recordField (msg : LoginMessage) (i : ℕ) (value : String)
    (dataOffset feaExtOffset : ℕ) :
    Does (msg.recordField i value dataOffset feaExtOffset : LoginWriter limit (ℕ × ℕ))
      fun cursor =>
        let enc := msg.encodeField i value { cursor, dataOffset, feaExtOffset }
        ((enc.dataOffset, enc.feaExtOffset), enc.cursor) := by
  unfold recordField
  simp only [Recorded.bind_eq, Recorded.pure_eq]
  by_cases hid : i = 9
  · simp only [if_pos hid]
    apply Does.congr
    · apply does_bind (does_recordExtension i feaExtOffset)
      intro entry
      apply does_bind (does_write 0 (toLe 4 0))
      intro _
      apply does_bind (does_write 0 (toLe 2 42))
      intro _
      exact does_ret (dataOffset, entry)
    · intro cursor
      unfold encodeField
      rw [if_pos hid]
  · simp only [if_neg hid]
    by_cases hsspi : i = 10
    · simp only [if_pos hsspi]
      apply Does.congr
      · apply does_bind (does_recordExtension i feaExtOffset)
        intro entry
        apply does_bind (does_write 0 _)
        intro _
        apply does_bind (msg.does_recordSspi dataOffset)
        intro dataOffset
        exact does_ret (dataOffset, entry)
      · intro cursor
        unfold encodeField
        rw [if_neg hid, if_pos hsspi]
        cases msg.integratedSecurity with
        | none => rfl
        | some bytes => rfl
    · simp only [if_neg hsspi]
      apply Does.congr
      · apply does_bind (does_recordExtension i feaExtOffset)
        intro entry
        apply does_bind (does_write 0 _)
        intro _
        apply does_bind (does_recordText i value dataOffset)
        intro dataOffset
        exact does_ret (dataOffset, entry)
      · intro cursor
        unfold encodeField
        rw [if_neg hid, if_neg hsspi]

theorem does_recordFields (msg : LoginMessage) (i : ℕ) (values : List String)
    (dataOffset feaExtOffset : ℕ) :
    Does (msg.recordFields i values (dataOffset, feaExtOffset) : LoginWriter limit (ℕ × ℕ))
      fun cursor =>
        let enc := msg.encodeFields i values { cursor, dataOffset, feaExtOffset }
        ((enc.dataOffset, enc.feaExtOffset), enc.cursor) := by
  induction values generalizing i dataOffset feaExtOffset with
  | nil => exact does_ret (dataOffset, feaExtOffset)
  | cons value values ih =>
    exact does_bind (msg.does_recordField i value dataOffset feaExtOffset)
      fun offsets => ih (i + 1) offsets.1 offsets.2

end LoginMessage

theorem FedAuthExt.does_recordNonce (ext : FedAuthExt) :
    Does (ext.recordNonce : LoginWriter limit Unit) fun cursor =>
      ((), match ext.nonce with
        | some nonce => cursor.write 0 nonce.toList
        | none => cursor) := by
  unfold recordNonce
  cases ext.nonce with
  | none => exact does_ret ()
  | some nonce => exact does_write 0 nonce.toList

theorem FedAuthExt.does_record (ext : FedAuthExt) (dataOffset feaExtOffset : ℕ) :
    Does (ext.record dataOffset feaExtOffset : LoginWriter limit Unit) fun cursor =>
      ((), ext.encode { cursor, dataOffset, feaExtOffset }) := by
  unfold record
  simp only [Recorded.bind_eq]
  apply Does.congr
  · apply does_bind (does_seek feaExtOffset)
    intro _
    apply does_bind (does_write 0 _)
    intro _
    apply does_bind (does_write 0 (toLe 2 4))
    intro _
    apply does_bind (does_seek dataOffset)
    intro _
    apply does_bind (does_write 0 _)
    intro _
    apply does_bind (does_write 0 [0x02])
    intro _
    apply does_bind (does_write 0 _)
    intro _
    apply does_bind (does_write 0 [ext.options])
    intro _
    apply does_bind (does_write 0 _)
    intro _
    apply does_bind (does_write 0 _)
    intro _
    apply does_bind ext.does_recordNonce
    intro _
    exact does_write 0 [0xFF]
  · intro cursor
    rfl

namespace LoginMessage

theorem does_recordFeature (msg : LoginMessage) (dataOffset feaExtOffset : ℕ) :
    Does (msg.recordFeature dataOffset feaExtOffset : LoginWriter limit Unit) fun cursor =>
      ((), match msg.fedAuthExt with
        | some ext => ext.encode { cursor, dataOffset, feaExtOffset }
        | none => cursor) := by
  unfold recordFeature
  cases msg.fedAuthExt with
  | none => exact does_ret ()
  | some ext => exact ext.does_record dataOffset feaExtOffset

/-- What the encoder makes of a list in front of the closing assertion. -/
def writeMessage (msg : LoginMessage) (cursor : WriteCursor UInt8) : WriteCursor UInt8 :=
  let cursor := msg.fixedPart.foldl (fun cursor bytes => cursor.write 0 bytes) cursor
  let enc := msg.encodeFields 0 msg.varData
    { cursor, dataOffset := cursor.pos + msg.varData.length * 2 * 2 + 6, feaExtOffset := 0 }
  let cursor := enc.cursor.write 0 (toLe 4 0)
  let cursor := match msg.fedAuthExt with
    | some ext => ext.encode { enc with cursor }
    | none => cursor
  (cursor.seek 0).write 0 (toLe 4 (UInt32.ofNat cursor.bytes.length).toNat)

theorem does_recordMessage (msg : LoginMessage) :
    Does (msg.recordMessage : LoginWriter limit Unit) fun cursor =>
      ((), msg.writeMessage cursor) := by
  unfold recordMessage
  simp only [Recorded.bind_eq]
  apply Does.congr
  · apply does_bind (does_recordPieces msg.fixedPart)
    intro _
    apply does_bind does_position
    intro start
    apply does_bind (msg.does_recordFields 0 msg.varData _ 0)
    intro offsets
    apply does_bind (does_write 0 (toLe 4 0))
    intro _
    apply does_bind (msg.does_recordFeature offsets.1 offsets.2)
    intro _
    apply does_bind (does_seek 0)
    intro _
    apply does_bind does_length
    intro length
    exact does_write 0 _
  · intro cursor
    rfl

theorem bytes_of_finish {msg : LoginMessage} {cursor : WriteCursor UInt8} {bytes : List UInt8}
    (hfinish : msg.finish cursor = .ok bytes) :
    ((cursor.seek 0).write 0 (toLe 4 (UInt32.ofNat cursor.bytes.length).toNat)).bytes = bytes := by
  unfold finish at hfinish
  simp only at hfinish
  split_ifs at hfinish
  exact Except.ok.inj hfinish

theorem writeMessage_bytes (msg : LoginMessage) :
    (msg.writeMessage { bytes := [], pos := 0 }).bytes = msg.layout := by
  have hencoded := msg.encode_eq
  unfold encodeToBoxedSlice at hencoded
  cases hext : msg.fedAuthExt with
  | none =>
    rw [hext] at hencoded
    unfold writeMessage
    simp only [hext]
    exact bytes_of_finish hencoded
  | some ext =>
    rw [hext] at hencoded
    unfold writeMessage
    simp only [hext]
    exact bytes_of_finish hencoded

/-- In a vector with room for `encoded_len` bytes the message is as long as that in the
end and no longer in between, and the vector keeps its capacity at every step, so that
the closing assertion holds. -/
theorem encode_never_moves (msg : LoginMessage) (vec : Vec UInt8 limit) (hempty : vec.elems = [])
    (hreserved : msg.encodedLen ≤ vec.capacity) :
    ∃ record last, msg.encodeReserved { vec := vec, pos := 0 } = (record, some ((), last)) ∧
      msg.encodeToBoxedSlice = .ok last.vec.elems ∧
      last.vec.elems.length = msg.encodedLen ∧ last.vec.capacity = vec.capacity ∧
      ∀ state ∈ record, state.vec.elems.length ≤ msg.encodedLen ∧
        state.vec.capacity = vec.capacity := by
  have hstart : VecCursor.cursor { vec := vec, pos := 0 } = { bytes := [], pos := 0 } := by
    rw [VecCursor.cursor, hempty]
  have hlength : (msg.writeMessage { bytes := [], pos := 0 }).bytes.length = msg.encodedLen := by
    rw [writeMessage_bytes, layout_length]
  obtain ⟨record, last, hrun, hlast, hcapacity, hrecord⟩ :=
    msg.does_recordMessage.keeps { vec := vec, pos := 0 } (by
      rw [hstart, hlength]
      exact hreserved)
  rw [hstart, hlength] at hrecord
  have hbytes : last.vec.elems = msg.layout := by
    rw [← writeMessage_bytes, ← hstart]
    exact congrArg WriteCursor.bytes hlast
  refine ⟨record, last, ?_, ?_, ?_, hcapacity, ?_⟩
  · simp only [encodeReserved, Recorded.bind_eq, Recorded.pure_eq, Recorded.bind, Recorded.capacity,
      Recorded.read, hrun, hcapacity, if_true, Recorded.ret, List.nil_append, List.append_nil]
  · rw [hbytes, encode_eq]
  · rw [hbytes, layout_length]
  · intro state hstate
    obtain ⟨hsame, hle⟩ := hrecord state hstate
    exact ⟨hle, hsame⟩

/-- A password outside the basic plane, SSPI data and an extension. -/
theorem encode_never_moves_extended :
    let msg := { new "" with
      password := "𝄞"
      integratedSecurity := some [1]
      fedAuthExt := some ⟨true, "t", none⟩ }
    let vec : Vec UInt8 (2 ^ 63 - 1) := ⟨[], 132, by decide, by decide⟩
    ∃ record last, msg.encodeReserved { vec := vec, pos := 0 } = (record, some ((), last)) ∧
      msg.encodeToBoxedSlice = .ok last.vec.elems ∧
      last.vec.elems.length = msg.encodedLen ∧ last.vec.capacity = vec.capacity ∧
      ∀ state ∈ record, state.vec.elems.length ≤ msg.encodedLen ∧
        state.vec.capacity = vec.capacity :=
  encode_never_moves
    { new "" with
      password := "𝄞"
      integratedSecurity := some [1]
      fedAuthExt := some ⟨true, "t", none⟩ }
    ⟨[], 132, by decide, by decide⟩ rfl (by decide)

end LoginMessage

end Tiberius
