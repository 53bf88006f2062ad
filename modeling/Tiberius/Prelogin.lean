import Tiberius.Columns
import Tiberius.Reading.Seeking
import Tiberius.RoundTrip
import Tiberius.Utf8

/-!
The pre-login message. It is a table of options, each with the offset and length
of its data, and the data behind the table. The encoder lays the data out in the
order of the table; the decoder follows whatever offsets the other side has
chosen, and goes back to the table after each of them.
-/

namespace Tiberius

open Reading Reading.Seeking

inductive EncryptionLevel where
  | off | on | notSupported | required | strict
  deriving DecidableEq, Repr

namespace EncryptionLevel

def toByte : EncryptionLevel → UInt8
  | off => 0
  | on => 1
  | notSupported => 2
  | required => 3
  | strict => 4

def all : List EncryptionLevel := [off, on, notSupported, required, strict]

def tryFrom (byte : UInt8) : Option EncryptionLevel := all.find? fun level => level.toByte == byte

/-- The value sent in the pre-login. In strict mode encryption stands before the
pre-login, which then asks for `Required`. -/
def asWireValue : EncryptionLevel → UInt8
  | strict => required.toByte
  | level => level.toByte

theorem tryFrom_asWireValue {level : EncryptionLevel} (hstrict : level ≠ strict) :
    tryFrom level.asWireValue = some level := by
  cases level with
  | strict => exact absurd rfl hstrict
  | _ => rfl

end EncryptionLevel

/-- An array of bytes. -/
abbrev Block (size : ℕ) : Type := { bytes : List UInt8 // bytes.length = size }

structure ActivityId where
  id : Block 16
  sequence : UInt32
  deriving DecidableEq

structure PreloginMessage where
  version : UInt32
  subBuild : UInt16
  encryption : EncryptionLevel
  instanceName : Option String
  threadId : UInt32
  mars : Bool
  activityId : Option ActivityId
  fedAuthRequired : Bool
  nonce : Option (Block 32)
  deriving DecidableEq

def preloginVersion : UInt8 := 0
def preloginEncryption : UInt8 := 1
def preloginInstopt : UInt8 := 2
def preloginThreadid : UInt8 := 3
def preloginMars : UInt8 := 4
def preloginTraceid : UInt8 := 5
def preloginFedauthrequired : UInt8 := 6
def preloginNonceopt : UInt8 := 7
def preloginTerminator : UInt8 := 0xff

/-- An entry pushed to the table, and the data written for it. -/
structure PreloginField where
  token : UInt8
  length : UInt16
  data : List UInt8

namespace PreloginMessage

/-- `PreloginMessage::new` at the version of the driver. -/
def new (driverVersion : UInt64) : PreloginMessage where
  version := driverVersion.toUInt32
  subBuild := (driverVersion >>> 32).toUInt16
  encryption := .notSupported
  instanceName := none
  threadId := 0
  mars := false
  activityId := none
  fedAuthRequired := false
  nonce := none

def versionField (message : PreloginMessage) : PreloginField where
  token := preloginVersion
  length := 0x04 + 0x02
  data := toBe 4 message.version.toNat ++ toBe 2 message.subBuild.toNat

def encryptionField (message : PreloginMessage) : PreloginField where
  token := preloginEncryption
  length := 0x01
  data := [message.encryption.asWireValue]

/-- The instance name and a terminator; an empty name is the terminator alone. -/
def instoptField (message : PreloginMessage) : PreloginField :=
  let instanceBytes := asBytes (message.instanceName.getD "")
  { token := preloginInstopt
    length := UInt16.ofNat (instanceBytes.length + 1)
    data := instanceBytes ++ [0x00] }

def threadidField (message : PreloginMessage) : PreloginField where
  token := preloginThreadid
  length := 0x04
  data := toBe 4 message.threadId.toNat

def marsField (message : PreloginMessage) : PreloginField where
  token := preloginMars
  length := 0x01
  data := [if message.mars then 1 else 0]

def traceidField (activityId : ActivityId) : PreloginField where
  token := preloginTraceid
  length := 0x14
  data := reorderBytes activityId.id.val ++ toLe 4 activityId.sequence.toNat

def fedauthField : PreloginField where
  token := preloginFedauthrequired
  length := 0x01
  data := [0x01]

/-- The entries in the order they are pushed. -/
def fields (message : PreloginMessage) : List PreloginField :=
  [message.versionField, message.encryptionField, message.instoptField, message.threadidField,
    message.marsField] ++ (message.activityId.map traceidField).toList ++
    (if message.fedAuthRequired then [fedauthField] else [])

/-- The offset table. The offset of the next entry is a sum of 16 bits. -/
def offsetTable : UInt16 → List PreloginField → Except Fault (List UInt8)
  | _, [] => .ok []
  | dataOffset, field :: rest =>
    if dataOffset.toNat + field.length.toNat < 2 ^ 16 then do
      let table ← offsetTable (dataOffset + field.length) rest
      .ok (field.token :: (toBe 2 dataOffset.toNat ++ toBe 2 field.length.toNat) ++ table)
    else .error .panic

def data (fields : List PreloginField) : List UInt8 := fields.flatMap PreloginField.data

/-- `PreloginMessage::encode`. -/
def encode (message : PreloginMessage) (dst : List UInt8) : Except Fault (List UInt8) := do
  let table ← offsetTable (UInt16.ofNat (message.fields.length * 5 + 1)) message.fields
  .ok (dst ++ table ++ [preloginTerminator] ++ data message.fields)

abbrev Decoding (α : Type) : Type := Seeking UInt8 Error α

def readU8 : Decoding UInt8 := do
  let bytes ← readExact Error.shortBuffer 1
  pure (UInt8.ofNat (beNat bytes.val))

def readU16Be : Decoding UInt16 := do
  let bytes ← readExact Error.shortBuffer 2
  pure (UInt16.ofNat (beNat bytes.val))

def readU32Be : Decoding UInt32 := do
  let bytes ← readExact Error.shortBuffer 4
  pure (UInt32.ofNat (beNat bytes.val))

def readU32Le : Decoding UInt32 := do
  let bytes ← readExact Error.shortBuffer 4
  pure (UInt32.ofNat (leNat bytes.val))

/-- One byte of the instance name: the terminator ends it. -/
def nameByte (bytes : List UInt8) : Decoding (List UInt8 ⊕ List UInt8) := do
  let nextByte ← readU8
  if nextByte = 0x00 then pure (.inl bytes) else pure (.inr (bytes ++ [nextByte]))

theorem reorder_block (block : Block 16) : (reorderBytes block.val).length = 16 :=
  (reorderBytes_length block.val).trans block.property

/-- The data of one option, at the offset its entry has named. -/
def readOption (token : UInt8) (length : UInt16) (ret : PreloginMessage) :
    Decoding PreloginMessage := do
  if token = preloginVersion then
    let version ← readU32Be
    let subBuild ← readU16Be
    pure { ret with version := version, subBuild := subBuild }
  else if token = preloginEncryption then
    let encrypt ← readU8
    match EncryptionLevel.tryFrom encrypt with
    | some level => pure { ret with encryption := level }
    | none => reject (.protocol ("invalid encryption value: " ++ toString encrypt))
  else if token = preloginInstopt then
    let bytes ← loop nameByte []
    if bytes.isEmpty then pure ret
    else pure { ret with instanceName := some (fromUtf8Lossy bytes) }
  else if token = preloginThreadid then
    if length = 0 then pure { ret with threadId := 0 }
    else if length = 4 then
      let threadId ← readU32Be
      pure { ret with threadId := threadId }
    else reject (.protocol ("prelogin: invalid threadid length: " ++ toString length))
  else if token = preloginMars then
    let mars ← readU8
    pure { ret with mars := mars ≠ 0 }
  else if token = preloginTraceid then
    let data ← readExact Error.shortBuffer 16
    let sequence ← readU32Le
    pure { ret with activityId := some ⟨⟨reorderBytes data.val, reorder_block data⟩, sequence⟩ }
  else if token = preloginFedauthrequired then
    let required ← readU8
    pure { ret with fedAuthRequired := required ≠ 0 }
  else if token = preloginNonceopt then
    -- byte by byte in the source, with the same outcome
    let data ← readExact Error.shortBuffer 32
    pure { ret with nonce := some data }
  else reject (.protocol ("unsupported prelogin token: " ++ toString token))

/-- One entry of the table: its data are read elsewhere, and the table is gone
on with behind the entry. -/
def readEntry (ret : PreloginMessage) : Decoding (PreloginMessage ⊕ PreloginMessage) := do
  let token ← readU8
  if token = preloginTerminator then pure (.inl ret)
  else
    let offset ← readU16Be
    let length ← readU16Be
    let oldPos ← position
    setPosition offset.toNat
    let ret ← readOption token length ret
    setPosition oldPos
    pure (.inr ret)

/-- `PreloginMessage::decode`. -/
def decode (driverVersion : UInt64) (src : List UInt8) : Except (Stop Error) PreloginMessage := do
  let (message, _) ← (loop readEntry (new driverVersion)).run src 0
  .ok message

theorem settles_readU8 : Settles readU8 :=
  settles_bind (settles_readExact _ _) fun _ => settles_pure _

theorem settles_readU16Be : Settles readU16Be :=
  settles_bind (settles_readExact _ _) fun _ => settles_pure _

theorem settles_readU32Be : Settles readU32Be :=
  settles_bind (settles_readExact _ _) fun _ => settles_pure _

theorem settles_readU32Le : Settles readU32Le :=
  settles_bind (settles_readExact _ _) fun _ => settles_pure _

theorem target_of_readU8 {symbols : List UInt8} {position target : ℕ} {byte : UInt8}
    (hread : readU8.run symbols position = .ok (byte, target)) :
    target = position + 1 ∧ target ≤ symbols.length := by
  obtain ⟨piece, middle, hpiece, hpure⟩ := of_bind_ok hread
  cases hpure
  obtain ⟨htarget, hinside⟩ := target_of_readExact hpiece
  exact ⟨htarget, hinside Nat.one_pos⟩

theorem target_of_readU16Be {symbols : List UInt8} {position target : ℕ} {value : UInt16}
    (hread : readU16Be.run symbols position = .ok (value, target)) :
    target = position + 2 ∧ target ≤ symbols.length := by
  obtain ⟨piece, middle, hpiece, hpure⟩ := of_bind_ok hread
  cases hpure
  obtain ⟨htarget, hinside⟩ := target_of_readExact hpiece
  exact ⟨htarget, hinside Nat.two_pos⟩

theorem settles_nameByte (bytes : List UInt8) : Settles (nameByte bytes) := by
  refine settles_bind settles_readU8 fun nextByte => ?_
  exact settles_ite (settles_pure _) (settles_pure _)

theorem advances_nameByte (bytes : List UInt8) : Advances (nameByte bytes) := by
  intro symbols position state target hcall
  obtain ⟨nextByte, middle, hread, hnext⟩ := of_bind_ok hcall
  obtain ⟨hmiddle, hinside⟩ := target_of_readU8 hread
  split at hnext
  · cases hnext
  · cases hnext
    omega

theorem settles_readOption (token : UInt8) (length : UInt16) (ret : PreloginMessage) :
    Settles (readOption token length ret) := by
  unfold readOption
  apply settles_ite
  · exact settles_bind settles_readU32Be fun _ => settles_bind settles_readU16Be fun _ =>
      settles_pure _
  apply settles_ite
  · refine settles_bind settles_readU8 fun encrypt => ?_
    split
    · exact settles_pure _
    · exact settles_reject _
  apply settles_ite
  · refine settles_bind (settles_loop settles_nameByte advances_nameByte _) fun bytes => ?_
    exact settles_ite (settles_pure _) (settles_pure _)
  apply settles_ite
  · apply settles_ite
    · exact settles_pure _
    apply settles_ite
    · exact settles_bind settles_readU32Be fun _ => settles_pure _
    · exact settles_reject _
  apply settles_ite
  · exact settles_bind settles_readU8 fun _ => settles_pure _
  apply settles_ite
  · exact settles_bind (settles_readExact _ _) fun _ => settles_bind settles_readU32Le fun _ =>
      settles_pure _
  apply settles_ite
  · exact settles_bind settles_readU8 fun _ => settles_pure _
  apply settles_ite
  · exact settles_bind (settles_readExact _ _) fun _ => settles_pure _
  · exact settles_reject _

theorem settles_readEntry (ret : PreloginMessage) : Settles (readEntry ret) := by
  refine settles_bind settles_readU8 fun token => ?_
  apply settles_ite
  · exact settles_pure _
  · exact settles_bind settles_readU16Be fun _ => settles_bind settles_readU16Be fun _ =>
      settles_bind settles_position fun _ => settles_bind (settles_setPosition _) fun _ =>
      settles_bind (settles_readOption _ _ _) fun _ => settles_bind (settles_setPosition _)
      fun _ => settles_pure _

/-- An entry is left right behind itself, wherever its data were. -/
theorem advances_readEntry (ret : PreloginMessage) : Advances (readEntry ret) := by
  intro symbols position state target hcall
  obtain ⟨token, afterToken, htoken, hcall⟩ := of_bind_ok hcall
  split at hcall
  · cases hcall
  · obtain ⟨offset, afterOffset, hoffset, hcall⟩ := of_bind_ok hcall
    obtain ⟨length, afterLength, hlength, hcall⟩ := of_bind_ok hcall
    obtain ⟨oldPos, _, hold, hcall⟩ := of_bind_ok hcall
    cases hold
    obtain ⟨_, _, -, hcall⟩ := of_bind_ok hcall
    obtain ⟨next, _, -, hcall⟩ := of_bind_ok hcall
    obtain ⟨_, restored, hrestored, hcall⟩ := of_bind_ok hcall
    cases hrestored
    cases hcall
    obtain ⟨htoken, -⟩ := target_of_readU8 htoken
    obtain ⟨hoffset, -⟩ := target_of_readU16Be hoffset
    obtain ⟨hlength, hinside⟩ := target_of_readU16Be hlength
    omega

/-- Every input is decoded or rejected with an error: the loop comes to an end
and no access leaves the input. -/
theorem decode_settles (driverVersion : UInt64) (src : List UInt8) :
    (∃ message, decode driverVersion src = .ok message) ∨
      ∃ error, decode driverVersion src = .error (.error error) := by
  cases hloop : (loop readEntry (new driverVersion)).run src 0 with
  | ok result =>
    refine .inl ⟨result.1, ?_⟩
    rw [decode, hloop]
    rfl
  | error stop =>
    obtain ⟨error, rfl⟩ :=
      settles_loop settles_readEntry advances_readEntry (new driverVersion) src 0 stop hloop
    refine .inr ⟨error, ?_⟩
    rw [decode, hloop]
    rfl

theorem readU8_stands {byte : UInt8} {symbols : List UInt8} {position : ℕ}
    (hstands : Stands [byte] symbols position) :
    readU8.run symbols position = .ok (byte, position + 1) := by
  have hvalue : UInt8.ofNat (beNat [byte]) = byte := by
    simp only [beNat, List.reverse_singleton, leNat, Nat.mul_zero, Nat.add_zero,
      UInt8.ofNat_toNat]
  have hlength : [byte].length = 1 := List.length_singleton
  unfold readU8
  rw [bind_ok (readExact_stands hlength hstands), hvalue]
  rfl

theorem readU16Be_stands {value : UInt16} {symbols : List UInt8} {position : ℕ}
    (hstands : Stands (toBe 2 value.toNat) symbols position) :
    readU16Be.run symbols position = .ok (value, position + 2) := by
  have hvalue : UInt16.ofNat (beNat (toBe 2 value.toNat)) = value := by
    have hlt : value.toNat < 256 ^ 2 := value.toNat_lt
    rw [beNat_toBe, Nat.mod_eq_of_lt hlt, UInt16.ofNat_toNat]
  unfold readU16Be
  rw [bind_ok (readExact_stands (toBe_length 2 _) hstands), hvalue]
  rfl

theorem readU32Be_stands {value : UInt32} {symbols : List UInt8} {position : ℕ}
    (hstands : Stands (toBe 4 value.toNat) symbols position) :
    readU32Be.run symbols position = .ok (value, position + 4) := by
  have hvalue : UInt32.ofNat (beNat (toBe 4 value.toNat)) = value := by
    have hlt : value.toNat < 256 ^ 4 := value.toNat_lt
    rw [beNat_toBe, Nat.mod_eq_of_lt hlt, UInt32.ofNat_toNat]
  unfold readU32Be
  rw [bind_ok (readExact_stands (toBe_length 4 _) hstands), hvalue]
  rfl

theorem readU32Le_stands {value : UInt32} {symbols : List UInt8} {position : ℕ}
    (hstands : Stands (toLe 4 value.toNat) symbols position) :
    readU32Le.run symbols position = .ok (value, position + 4) := by
  have hvalue : UInt32.ofNat (leNat (toLe 4 value.toNat)) = value := by
    have hlt : value.toNat < 256 ^ 4 := value.toNat_lt
    rw [leNat_toLe, Nat.mod_eq_of_lt hlt, UInt32.ofNat_toNat]
  unfold readU32Le
  rw [bind_ok (readExact_stands (toLe_length 4 _) hstands), hvalue]
  rfl

/-- The bytes up to a terminator are read one by one. -/
theorem rounds_nameByte {bytes symbols : List UInt8} (hzero : 0 ∉ bytes) (fuel position : ℕ)
    (before : List UInt8) (hfuel : bytes.length < fuel)
    (hstands : Stands (bytes ++ [0]) symbols position) :
    (rounds nameByte fuel before).run symbols position =
      .ok (before ++ bytes, position + bytes.length + 1) := by
  induction bytes generalizing fuel position before with
  | nil =>
    obtain ⟨fuel, rfl⟩ := Nat.exists_eq_succ_of_ne_zero (Nat.ne_of_gt hfuel)
    have hname : (nameByte before).run symbols position = .ok (.inl before, position + 1) := by
      unfold nameByte
      rw [bind_ok (readU8_stands hstands), if_pos rfl]
      rfl
    rw [rounds, bind_ok hname, List.append_nil]
    rfl
  | cons byte bytes ih =>
    obtain ⟨fuel, rfl⟩ := Nat.exists_eq_succ_of_ne_zero (Nat.ne_of_gt (Nat.zero_lt_of_lt hfuel))
    obtain ⟨hbyte, hrest⟩ := @stands_append _ [byte] (bytes ++ [0]) _ _ hstands
    have hne : byte ≠ 0 := by
      rintro rfl
      exact hzero List.mem_cons_self
    have hname : (nameByte before).run symbols position =
        .ok (.inr (before ++ [byte]), position + 1) := by
      unfold nameByte
      rw [bind_ok (readU8_stands hbyte), if_neg hne]
      rfl
    rw [rounds, bind_ok hname]
    have hrec := ih (fun hmem => hzero (List.mem_cons_of_mem byte hmem)) fuel (position + 1)
      (before ++ [byte]) (Nat.lt_of_succ_lt_succ hfuel) hrest
    refine hrec.trans ?_
    rw [List.append_assoc, List.length_cons]
    congr 2
    omega

/-- The name loop returns the name in front of a terminator. -/
theorem loop_nameByte {bytes symbols : List UInt8} {position : ℕ} (hzero : 0 ∉ bytes)
    (hstands : Stands (bytes ++ [0]) symbols position) :
    (loop nameByte []).run symbols position = .ok (bytes, position + bytes.length + 1) := by
  have hlength := hstands.length_le (List.append_ne_nil_of_right_ne_nil _ (List.cons_ne_nil _ _))
  rw [List.length_append] at hlength
  exact rounds_nameByte hzero (symbols.length + 1) position [] (by omega) hstands

/-- The data of a field are read as a change of the message, wherever they stand. -/
def Yields (field : PreloginField) (update : PreloginMessage → PreloginMessage) : Prop :=
  ∀ ret symbols position, Stands field.data symbols position →
    ∃ target,
      (readOption field.token field.length ret).run symbols position = .ok (update ret, target)

variable (message : PreloginMessage)

theorem versionField_yields : Yields message.versionField fun ret =>
    { ret with version := message.version, subBuild := message.subBuild } := by
  intro ret symbols position hstands
  obtain ⟨hversion, hbuild⟩ := stands_append hstands
  rw [toBe_length] at hbuild
  refine ⟨position + 4 + 2, ?_⟩
  change (readU32Be >>= _).run symbols position = _
  rw [bind_ok (readU32Be_stands hversion), bind_ok (readU16Be_stands hbuild)]
  rfl

theorem encryptionField_yields (hstrict : message.encryption ≠ .strict) :
    Yields message.encryptionField fun ret => { ret with encryption := message.encryption } := by
  intro ret symbols position hstands
  refine ⟨position + 1, ?_⟩
  change (readU8 >>= _).run symbols position = _
  rw [bind_ok (readU8_stands hstands), EncryptionLevel.tryFrom_asWireValue hstrict]
  rfl

theorem instoptField_yields
    (hname : ∀ name, message.instanceName = some name → name ≠ "" ∧ '\x00' ∉ name.toList) :
    Yields message.instoptField fun ret =>
      { ret with instanceName := message.instanceName <|> ret.instanceName } := by
  intro ret symbols position hstands
  change ∃ target, (loop nameByte [] >>= _).run symbols position = _
  cases hinstance : message.instanceName with
  | none =>
    have hzero : 0 ∉ asBytes "" := List.not_mem_nil
    simp only [instoptField, hinstance, Option.getD_none] at hstands
    refine ⟨position + (asBytes "").length + 1, ?_⟩
    rw [bind_ok (loop_nameByte hzero hstands)]
    rfl
  | some name =>
    obtain ⟨hne, hnul⟩ := hname name hinstance
    simp only [instoptField, hinstance, Option.getD_some] at hstands
    refine ⟨position + (asBytes name).length + 1, ?_⟩
    have hbytes : (asBytes name).isEmpty = false :=
      List.isEmpty_eq_false_iff.mpr (asBytes_ne_nil hne)
    rw [bind_ok (loop_nameByte (zero_notMem_asBytes hnul) hstands), hbytes, fromUtf8Lossy_asBytes]
    rfl

theorem threadidField_yields : Yields message.threadidField fun ret =>
    { ret with threadId := message.threadId } := by
  intro ret symbols position hstands
  refine ⟨position + 4, ?_⟩
  change (readU32Be >>= _).run symbols position = _
  rw [bind_ok (readU32Be_stands hstands)]
  rfl

theorem marsField_yields :
    Yields message.marsField fun ret => { ret with mars := message.mars } := by
  intro ret symbols position hstands
  refine ⟨position + 1, ?_⟩
  change (readU8 >>= _).run symbols position = _
  rw [bind_ok (readU8_stands hstands)]
  cases message.mars with
  | true => rfl
  | false => rfl

theorem traceidField_yields (activityId : ActivityId) : Yields (traceidField activityId) fun ret =>
    { ret with activityId := some activityId } := by
  intro ret symbols position hstands
  obtain ⟨hguid, hsequence⟩ := stands_append hstands
  have hlength := reorder_block activityId.id
  rw [hlength] at hsequence
  refine ⟨position + 16 + 4, ?_⟩
  change (readExact Error.shortBuffer 16 >>= _).run symbols position = _
  rw [bind_ok (readExact_stands hlength hguid), bind_ok (readU32Le_stands hsequence)]
  simp only [reorderBytes_reorderBytes]
  rfl

theorem fedauthField_yields : Yields fedauthField fun ret =>
    { ret with fedAuthRequired := true } := by
  intro ret symbols position hstands
  refine ⟨position + 1, ?_⟩
  change (readU8 >>= _).run symbols position = _
  rw [bind_ok (readU8_stands hstands)]
  rfl

/-- What the fields of a message change, one after the other. -/
def updates : List (PreloginMessage → PreloginMessage) :=
  [fun ret => { ret with version := message.version, subBuild := message.subBuild },
    fun ret => { ret with encryption := message.encryption },
    fun ret => { ret with instanceName := message.instanceName <|> ret.instanceName },
    fun ret => { ret with threadId := message.threadId },
    fun ret => { ret with mars := message.mars }] ++
    (message.activityId.map fun activityId ret =>
      { ret with activityId := some activityId }).toList ++
    (if message.fedAuthRequired then [fun ret => { ret with fedAuthRequired := true }] else [])

theorem fields_yield (hstrict : message.encryption ≠ .strict)
    (hname : ∀ name, message.instanceName = some name → name ≠ "" ∧ '\x00' ∉ name.toList) :
    List.Forall₂ Yields message.fields message.updates := by
  have htrace : List.Forall₂ Yields (message.activityId.map traceidField).toList
      (message.activityId.map fun activityId ret =>
        { ret with activityId := some activityId }).toList := by
    cases message.activityId with
    | none => exact .nil
    | some activityId => exact .cons (traceidField_yields activityId) .nil
  have hfedauth : List.Forall₂ Yields (if message.fedAuthRequired then [fedauthField] else [])
      (if message.fedAuthRequired then [fun ret => { ret with fedAuthRequired := true }]
        else []) := by
    cases message.fedAuthRequired with
    | false => exact .nil
    | true => exact .cons fedauthField_yields .nil
  unfold fields updates
  refine List.rel_append (List.rel_append ?_ htrace) hfedauth
  exact .cons (versionField_yields message) (.cons (encryptionField_yields message hstrict)
    (.cons (instoptField_yields message hname) (.cons (threadidField_yields message)
      (.cons (marsField_yields message) .nil))))

/-- The fields of a message without a nonce make up the message. -/
theorem foldl_updates (driverVersion : UInt64) (hnonce : message.nonce = none) :
    message.updates.foldl (fun ret update => update ret) (new driverVersion) = message := by
  obtain ⟨version, subBuild, encryption, instanceName, threadId, mars, activityId, fedAuthRequired,
    nonce⟩ := message
  obtain rfl : nonce = none := hnonce
  cases instanceName <;> cases activityId <;> cases fedAuthRequired <;> rfl

variable {message} in
/-- A field of a message is one of seven. -/
theorem mem_fields {field : PreloginField} (hfield : field ∈ message.fields) :
    field ∈ [message.versionField, message.encryptionField, message.instoptField,
      message.threadidField, message.marsField, fedauthField] ∨
      ∃ activityId, field = traceidField activityId := by
  simp only [fields, List.mem_append, Option.mem_toList, Option.map_eq_some_iff] at hfield
  rcases hfield with (hfield | ⟨activityId, -, rfl⟩) | hfedauth
  · exact .inl (List.mem_append_left [fedauthField] hfield)
  · exact .inr ⟨activityId, rfl⟩
  · split at hfedauth
    · exact .inl (List.mem_append_right [_, _, _, _, _] hfedauth)
    · cases hfedauth

theorem token_ne_terminator : ∀ field ∈ message.fields, field.token ≠ preloginTerminator := by
  intro field hfield
  rcases mem_fields hfield with hfield | ⟨activityId, rfl⟩
  · have htoken : field.token ∈ [preloginVersion, preloginEncryption, preloginInstopt,
        preloginThreadid, preloginMars, preloginFedauthrequired] :=
      List.mem_map_of_mem hfield
    intro hterminator
    rw [hterminator] at htoken
    exact absurd htoken (by decide)
  · exact of_decide_eq_true rfl

theorem length_le_data {field : PreloginField} {fields : List PreloginField}
    (hfield : field ∈ fields) : field.data.length ≤ (data fields).length := by
  obtain ⟨before, behind, rfl⟩ := List.append_of_mem hfield
  simp only [data, List.flatMap_append, List.flatMap_cons, List.length_append]
  omega

/-- The lengths in the table are those of the data. -/
theorem fields_length (hshort : (data message.fields).length < 2 ^ 16) :
    ∀ field ∈ message.fields, field.length.toNat = field.data.length := by
  intro field hfield
  have hle := length_le_data hfield
  rcases mem_fields hfield with hfield | ⟨activityId, rfl⟩
  · simp only [List.mem_cons, List.not_mem_nil, or_false] at hfield
    rcases hfield with rfl | rfl | rfl | rfl | rfl | rfl
    · simp only [versionField, List.length_append, toBe_length]
      rfl
    · rfl
    · simp only [instoptField, List.length_append, List.length_singleton] at hle ⊢
      exact UInt16.toNat_ofNat_of_lt' (by rw [UInt16.size]; omega)
    · simp only [threadidField, toBe_length]
      rfl
    · rfl
    · rfl
  · simp only [traceidField, List.length_append, toLe_length, reorder_block]
    rfl

/-- A table that comes about has its first entry in front, and no offset overflows. -/
theorem offsetTable_cons_ok {field : PreloginField} {fields : List PreloginField}
    {offset : UInt16} {table : List UInt8}
    (htable : offsetTable offset (field :: fields) = .ok table) :
    offset.toNat + field.length.toNat < 2 ^ 16 ∧
      ∃ rest, offsetTable (offset + field.length) fields = .ok rest ∧
        table = field.token :: (toBe 2 offset.toNat ++ toBe 2 field.length.toNat) ++ rest := by
  rw [offsetTable] at htable
  split at htable
  next hsum =>
    cases hrest : offsetTable (offset + field.length) fields with
    | error fault =>
      rw [hrest] at htable
      cases htable
    | ok rest =>
      rw [hrest] at htable
      cases htable
      exact ⟨hsum, rest, rfl, rfl⟩
  next => cases htable

/-- The table has five bytes for each of its entries. -/
theorem offsetTable_length {fields : List PreloginField} {offset : UInt16} {table : List UInt8}
    (htable : offsetTable offset fields = .ok table) : table.length = fields.length * 5 := by
  induction fields generalizing offset table with
  | nil =>
    cases htable
    rfl
  | cons field fields ih =>
    obtain ⟨-, rest, hrest, rfl⟩ := offsetTable_cons_ok htable
    simp only [List.length_append, List.length_cons, toBe_length, ih hrest]
    omega

/-- Where the lengths are those of the data and the data end within 16 bits, no
offset overflows. -/
theorem exists_offsetTable {fields : List PreloginField} {offset : UInt16}
    (hlength : ∀ field ∈ fields, field.length.toNat = field.data.length)
    (hshort : offset.toNat + (data fields).length < 2 ^ 16) :
    ∃ table, offsetTable offset fields = .ok table := by
  induction fields generalizing offset with
  | nil => exact ⟨[], rfl⟩
  | cons field fields ih =>
    have hfield := hlength field List.mem_cons_self
    simp only [data, List.flatMap_cons, List.length_append] at hshort
    have hsum : offset.toNat + field.length.toNat < 2 ^ 16 := by omega
    have hnext : (offset + field.length).toNat = offset.toNat + field.length.toNat :=
      (UInt16.toNat_add _ _).trans (Nat.mod_eq_of_lt hsum)
    obtain ⟨table, htable⟩ := @ih (offset + field.length)
      (fun other hother => hlength other (List.mem_cons_of_mem field hother))
      (by rw [hnext, data]; omega)
    refine ⟨field.token :: (toBe 2 offset.toNat ++ toBe 2 field.length.toNat) ++ table, ?_⟩
    rw [offsetTable, if_pos hsum, htable]
    rfl

/-- An entry whose data stand at its offset is read. -/
theorem readEntry_stands {field : PreloginField} {update : PreloginMessage → PreloginMessage}
    {offset : UInt16} {symbols : List UInt8} {position : ℕ} (hyields : Yields field update)
    (htoken : field.token ≠ preloginTerminator)
    (hentry : Stands (field.token :: (toBe 2 offset.toNat ++ toBe 2 field.length.toNat)) symbols
      position)
    (hdata : Stands field.data symbols offset.toNat) (ret : PreloginMessage) :
    (readEntry ret).run symbols position = .ok (.inr (update ret), position + 5) := by
  obtain ⟨hfirst, hrest⟩ :=
    @stands_append _ [field.token] (toBe 2 offset.toNat ++ toBe 2 field.length.toNat) _ _ hentry
  obtain ⟨hoffset, hlength⟩ := stands_append hrest
  rw [toBe_length] at hlength
  rw [List.length_singleton] at hoffset hlength
  obtain ⟨target, hoption⟩ := hyields ret symbols offset.toNat hdata
  unfold readEntry
  rw [bind_ok (readU8_stands hfirst), if_neg htoken, bind_ok (readU16Be_stands hoffset),
    bind_ok (readU16Be_stands hlength)]
  change (readOption field.token field.length ret >>= _).run symbols offset.toNat = _
  rw [bind_ok hoption]
  rfl

/-- A table whose entries are followed to their data. -/
theorem rounds_readEntry {fields : List PreloginField}
    {updates : List (PreloginMessage → PreloginMessage)}
    (hyields : List.Forall₂ Yields fields updates)
    (htoken : ∀ field ∈ fields, field.token ≠ preloginTerminator)
    (hlength : ∀ field ∈ fields, field.length.toNat = field.data.length)
    {table symbols : List UInt8} {offset : UInt16} {fuel position : ℕ} (ret : PreloginMessage)
    (hfuel : fields.length < fuel) (htable : offsetTable offset fields = .ok table)
    (hstands : Stands (table ++ [preloginTerminator]) symbols position)
    (hdata : Stands (data fields) symbols offset.toNat) :
    ∃ target, (rounds readEntry fuel ret).run symbols position =
      .ok (updates.foldl (fun ret update => update ret) ret, target) := by
  induction hyields generalizing table offset fuel position ret with
  | nil =>
    obtain ⟨fuel, rfl⟩ := Nat.exists_eq_succ_of_ne_zero (Nat.ne_of_gt hfuel)
    cases htable
    have hread : (readEntry ret).run symbols position = .ok (.inl ret, position + 1) := by
      unfold readEntry
      rw [bind_ok (readU8_stands hstands), if_pos rfl]
      rfl
    refine ⟨position + 1, ?_⟩
    rw [rounds, bind_ok hread]
    rfl
  | @cons field update fields updates hfield hrest ih =>
    obtain ⟨fuel, rfl⟩ := Nat.exists_eq_succ_of_ne_zero (Nat.ne_of_gt (Nat.zero_lt_of_lt hfuel))
    obtain ⟨hsum, restTable, hrestTable, rfl⟩ := offsetTable_cons_ok htable
    have hnext : (offset + field.length).toNat = offset.toNat + field.data.length := by
      rw [← hlength field List.mem_cons_self]
      exact (UInt16.toNat_add _ _).trans (Nat.mod_eq_of_lt hsum)
    rw [List.append_assoc] at hstands
    obtain ⟨hentry, hbehind⟩ := stands_append hstands
    obtain ⟨hfieldData, hrestData⟩ := stands_append hdata
    have hread := readEntry_stands hfield (htoken field List.mem_cons_self) hentry hfieldData ret
    have hfive : (field.token :: (toBe 2 offset.toNat ++ toBe 2 field.length.toNat)).length = 5 := by
      simp only [List.length_cons, List.length_append, toBe_length]
    rw [hfive] at hbehind
    rw [← hnext] at hrestData
    rw [rounds, bind_ok hread]
    exact ih (fun other hother => htoken other (List.mem_cons_of_mem field hother))
      (fun other hother => hlength other (List.mem_cons_of_mem field hother)) (update ret)
      (Nat.lt_of_succ_lt_succ hfuel) hrestTable hbehind hrestData

/-- The length of the encoding: five bytes per entry, the terminator, the data. -/
def encodedLength : ℕ := message.fields.length * 5 + 1 + (data message.fields).length

theorem encode_length {dst bytes : List UInt8} (hencode : message.encode dst = .ok bytes) :
    bytes.length = dst.length + message.encodedLength := by
  unfold encode at hencode
  cases htable : offsetTable (UInt16.ofNat (message.fields.length * 5 + 1)) message.fields with
  | error fault =>
    rw [htable] at hencode
    cases hencode
  | ok table =>
    rw [htable] at hencode
    cases hencode
    simp only [List.length_append, List.length_singleton, offsetTable_length htable, encodedLength]
    omega

/-- A message whose encoding is shorter than 65536 bytes is encoded and decoded
again. -/
theorem decode_encode (driverVersion : UInt64) (hnonce : message.nonce = none)
    (hstrict : message.encryption ≠ .strict)
    (hname : ∀ name, message.instanceName = some name → name ≠ "" ∧ '\x00' ∉ name.toList)
    (hshort : message.encodedLength < 2 ^ 16) :
    ∃ bytes, message.encode [] = .ok bytes ∧ decode driverVersion bytes = .ok message := by
  have hparts : message.fields.length * 5 + 1 + (data message.fields).length < 2 ^ 16 := hshort
  have hoffset : (UInt16.ofNat (message.fields.length * 5 + 1)).toNat =
      message.fields.length * 5 + 1 :=
    UInt16.toNat_ofNat_of_lt' (by rw [UInt16.size]; omega)
  have hlength := fields_length message (by omega)
  obtain ⟨table, htable⟩ :=
    @exists_offsetTable _ (UInt16.ofNat (message.fields.length * 5 + 1)) hlength
      (by rw [hoffset]; omega)
  have htableLength := offsetTable_length htable
  have hencode : message.encode [] =
      .ok (table ++ [preloginTerminator] ++ data message.fields) := by
    rw [encode, htable]
    rfl
  generalize hbytes : table ++ [preloginTerminator] ++ data message.fields = bytes at hencode
  have hhead : (table ++ [preloginTerminator]).length = message.fields.length * 5 + 1 := by
    rw [List.length_append, htableLength, List.length_singleton]
  have hstands : Stands (table ++ [preloginTerminator]) bytes 0 := by
    rw [Stands, ← hbytes, List.drop_zero, List.take_left]
  have hdata : Stands (data message.fields) bytes
      (UInt16.ofNat (message.fields.length * 5 + 1)).toNat := by
    rw [Stands, hoffset, ← hhead, ← hbytes, List.drop_left, List.take_length]
  have hfuel : message.fields.length < bytes.length + 1 := by
    rw [← hbytes, List.length_append, hhead]
    omega
  obtain ⟨target, hrounds⟩ := rounds_readEntry (fields_yield message hstrict hname)
    message.token_ne_terminator hlength (new driverVersion) hfuel htable hstands hdata
  refine ⟨bytes, hencode, ?_⟩
  have hloop : (loop readEntry (new driverVersion)).run bytes 0 = .ok (message, target) := by
    rw [foldl_updates message driverVersion hnonce] at hrounds
    exact hrounds
  rw [decode, hloop]
  rfl

/-- The encoder and the decoder of the pre-login message agree, and the decoder
deals with every input. -/
theorem prelogin_codec (driverVersion : UInt64) :
    (∀ message : PreloginMessage, message.nonce = none → message.encryption ≠ .strict →
      (∀ name, message.instanceName = some name → name ≠ "" ∧ '\x00' ∉ name.toList) →
      message.encodedLength < 65536 →
      ∃ bytes, message.encode [] = .ok bytes ∧ bytes.length = message.encodedLength ∧
        decode driverVersion bytes = .ok message) ∧
    ∀ src : List UInt8, (∃ message, decode driverVersion src = .ok message) ∨
      ∃ error, decode driverVersion src = .error (.error error) := by
  refine ⟨?_, decode_settles driverVersion⟩
  intro message hnonce hstrict hname hshort
  obtain ⟨bytes, hencode, hdecode⟩ :=
    decode_encode message driverVersion hnonce hstrict hname hshort
  refine ⟨bytes, hencode, ?_, hdecode⟩
  rw [encode_length message hencode, List.length_nil, Nat.zero_add]

/-- A message with a name, a trace and federated authentication. -/
def tracedMessage : PreloginMessage where
  version := 0x0f000001
  subBuild := 7
  encryption := .required
  instanceName := some "MSSQLServer"
  threadId := 42
  mars := true
  activityId := some ⟨⟨List.replicate 15 0 ++ [1], rfl⟩, 3⟩
  fedAuthRequired := true
  nonce := none

theorem prelogin_codec_traced :
    ∃ bytes, tracedMessage.encode [] = .ok bytes ∧ bytes.length = tracedMessage.encodedLength ∧
      decode 0 bytes = .ok tracedMessage := by
  have hname : ∀ name, tracedMessage.instanceName = some name →
      name ≠ "" ∧ '\x00' ∉ name.toList := by
    rintro _ ⟨rfl⟩
    decide
  exact (prelogin_codec 0).1 tracedMessage rfl (by decide) hname (by decide)

end PreloginMessage

end Tiberius
