import Tiberius.Reading.Agreement
import Tiberius.Reading.Seeking
import Tiberius.Tokens

/-!
The bounds of the length-prefixed tokens. Their decoders are written here once
more with every index into a body and every sum of lengths checked: an access
outside a slice, a result that does not fit `usize` and a loop that goes on for
too long all panic. They end like the decoders without the checks, so there is
nothing to check, and they take exactly what the token declares.
-/

namespace Tiberius

open Reading Reading.Program Reader

namespace Usize

/-- Arithmetic on `usize`, which has 64 bits. -/
def add (a b : ℕ) : Except Fault ℕ := if a + b < 2 ^ 64 then .ok (a + b) else .error .panic

def mul (a b : ℕ) : Except Fault ℕ := if a * b < 2 ^ 64 then .ok (a * b) else .error .panic

def sub (a b : ℕ) : Except Fault ℕ := if b ≤ a then .ok (a - b) else .error .panic

theorem add_ok {a b : ℕ} (hfits : a + b < 2 ^ 64) : add a b = .ok (a + b) := if_pos hfits

theorem mul_ok {a b : ℕ} (hfits : a * b < 2 ^ 64) : mul a b = .ok (a * b) := if_pos hfits

theorem sub_ok {a b : ℕ} (hle : b ≤ a) : sub a b = .ok (a - b) := if_pos hle

end Usize

namespace Slice

/-- `data[pos]`. -/
def index (data : List UInt8) (pos : ℕ) : Except Fault UInt8 :=
  match data[pos]? with
  | some byte => .ok byte
  | none => .error .panic

/-- `data.get(start..stop)`. -/
def getRange (data : List UInt8) (start stop : ℕ) : Option (List UInt8) :=
  if start ≤ stop ∧ stop ≤ data.length then some ((data.drop start).take (stop - start)) else none

end Slice

open Slice

def protocolError {α : Type} (message : String) : Except Fault α :=
  .error (.error (.protocol message))

/-- A computation that cannot panic. -/
def sure {α : Type} : Except Error α → Except Fault α
  | .ok value => .ok value
  | .error error => .error (.error error)

/-- A computation in memory, between reads. -/
def Reader.checked {α : Type} : Except Fault α → Reader α
  | .ok value => .ret value
  | .error fault => .fail fault

/-- Parsing of a body in memory that may panic. -/
abbrev CheckedCursor (α : Type) : Type := StateT (List UInt8) (Except Fault) α

def Cursor.sure {α : Type} (cursor : Cursor α) : CheckedCursor α := fun bytes =>
  Tiberius.sure (cursor bytes)

def CheckedCursor.parse {α : Type} (cursor : CheckedCursor α) (bytes : List UInt8) : Reader α :=
  checked ((StateT.run cursor bytes).map Prod.fst)

namespace TokenEnvChange

/-- A collation of five bytes, each taken from the value by its index. -/
def readCollationChecked : CheckedCursor (Option Collation) := do
  let len ← Cursor.readU8.sure
  let value ← (Cursor.take len.toNat).sure
  if len = 5 then
    let sortId ← liftM (index value 4)
    let b0 ← liftM (index value 0)
    let b1 ← liftM (index value 1)
    let b2 ← liftM (index value 2)
    let b3 ← liftM (index value 3)
    pure (some { info := getU32Le [b0, b1, b2, b3], sortId := sortId })
  else pure none

def parseBodyChecked : EnvChangeTy → CheckedCursor TokenEnvChange
  | .sqlCollation => do
    let new ← readCollationChecked
    let old ← readCollationChecked
    pure (.sqlCollation old new)
  | ty => (parseBody ty).sure

def decodeChecked : Reader TokenEnvChange := do
  let len ← readU16Le
  let bytes ← readExact len.toNat
  CheckedCursor.parse (do
    let byte ← Cursor.readU8.sure
    match EnvChangeTy.tryFrom byte with
    | none =>
      throw (.error (.protocol ("invalid envchange type " ++
        String.ofList (Nat.toDigits 16 byte.toNat))))
    | some ty => parseBodyChecked ty) bytes

end TokenEnvChange

namespace TokenTabName

/-- The units of a part: `pos` moves on by two for each of them. -/
def unitsAt (data : List UInt8) : ℕ → ℕ → Except Fault (List UInt16 × ℕ)
  | 0, pos => .ok ([], pos)
  | count + 1, pos => do
    let low ← index data pos
    let high ← index data (← Usize.add pos 1)
    let (units, pos) ← unitsAt data count (← Usize.add pos 2)
    .ok (getU16Le [low, high] :: units, pos)

/-- The parts of a table name at `pos`. -/
def partsAt (data : List UInt8) : ℕ → ℕ → Except Fault (List String × ℕ)
  | 0, pos => .ok ([], pos)
  | count + 1, pos => do
    if data.length < (← Usize.add pos 2) then
      protocolError "TABNAME token truncated while reading part length"
    else
      let low ← index data pos
      let high ← index data (← Usize.add pos 1)
      let charCount := (getU16Le [low, high]).toNat
      let pos ← Usize.add pos 2
      let byteCount ← Usize.mul charCount 2
      if data.length < (← Usize.add pos byteCount) then
        protocolError "TABNAME token truncated while reading part name"
      else
        let (units, pos) ← unitsAt data charCount pos
        match fromUtf16 units with
        | none => protocolError "TABNAME token part is not valid UTF-16"
        | some part =>
          let (parts, pos) ← partsAt data count pos
          .ok (part :: parts, pos)

/-- `while pos < data.len()`. -/
def tablesAt (data : List UInt8) : ℕ → ℕ → Except Fault (List (List String))
  | 0, pos => if pos < data.length then .error .panic else .ok []
  | fuel + 1, pos =>
    if pos < data.length then do
      let numParts ← index data pos
      let (parts, pos) ← partsAt data numParts.toNat (← Usize.add pos 1)
      let tables ← tablesAt data fuel pos
      .ok (parts :: tables)
    else .ok []

def decodeChecked : Reader TokenTabName := do
  let len ← readU16Le
  let data ← readBytesInto len.toNat maxPrealloc
  let tables ← checked (tablesAt data data.length 0)
  pure { tables := tables }

end TokenTabName

/-- The name of a COLINFO entry, with the number of bytes consumed behind it. -/
def ColInfo.decodeNameChecked (length : ℕ) (status : UInt8) (consumed : ℕ) :
    Reader (Option String × ℕ) := do
  if status &&& statusDifferentName = 0 then pure (none, consumed)
  else
    let room ← checked (Usize.sub length consumed)
    if room < 1 then protocol "COLINFO ColName length byte extends past the token length"
    else
      let charLen ← readU8
      let consumed ← checked (Usize.add consumed 1)
      let nameBytes ← checked (Usize.mul charLen.toNat 2)
      let room ← checked (Usize.sub length consumed)
      if room < nameBytes then protocol "COLINFO ColName extends past the token length"
      else
        let units ← readU16Le.times charLen.toNat
        let consumed ← checked (Usize.add consumed nameBytes)
        match fromUtf16 units with
        | some text => pure (some text, consumed)
        | none => protocol "COLINFO ColName is not valid UTF-16"

/-- `while consumed < length`. -/
def TokenColInfo.decodeEntriesChecked (length : ℕ) : ℕ → ℕ → Reader (List ColInfo)
  | 0, consumed => if consumed < length then .fail .panic else pure []
  | fuel + 1, consumed =>
    if consumed < length then do
      let room ← checked (Usize.sub length consumed)
      if room < 3 then protocol "COLINFO entry header extends past the token length"
      else
        let colNum ← readU8
        let tableNum ← readU8
        let status ← readU8
        let consumed ← checked (Usize.add consumed 3)
        let name ← ColInfo.decodeNameChecked length status consumed
        let rest ← decodeEntriesChecked length fuel name.2
        pure
          ({ colNum := colNum, tableNum := tableNum, status := status, colName := name.1 } :: rest)
    else pure []

def TokenColInfo.decodeChecked : Reader TokenColInfo := do
  let length ← readU16Le
  let columns ← decodeEntriesChecked length.toNat length.toNat 0
  pure { columns := columns }

def TokenLoginAck.decodeChecked : Reader TokenLoginAck := do
  let length ← readU16Le
  if length.toNat < loginAckFixedPrefix then
    let _ ← readExact length.toNat
    protocol "Login ACK: token length shorter than fixed header"
  else
    let interface ← readU8
    let version ← readU32
    match FeatureLevel.tryFrom version with
    | none => protocol "Login ACK: Invalid TDS version"
    | some tdsVersion =>
      let behind ← checked (Usize.sub length.toNat loginAckFixedPrefix)
      let data ← readExact behind
      Cursor.parse (do
        let progName ←
          Cursor.readBVarchar (.protocol "Login ACK: ProgName is not valid UTF-16")
        let version ← Cursor.readU32
        pure
          { interface := interface
            tdsVersion := tdsVersion
            progName := progName
            version := version }) data

namespace TokenSessionState

/-- A step between reads at positions of a body. -/
def checkedAt {α : Type} (result : Except Fault α) : Seeking UInt8 Fault α where
  run _ position :=
    match result with
    | .ok value => .ok (value, position)
    | .error fault => .error (.error fault)

def readU8At : Seeking UInt8 Fault UInt8 := do
  let bytes ← Seeking.readExact (.error .shortBuffer) 1
  pure (UInt8.ofNat (leNat bytes.val))

def readU32At : Seeking UInt8 Fault UInt32 := do
  let bytes ← Seeking.readExact (.error .shortBuffer) 4
  pure (getU32Le bytes.val)

/-- One entry, in a body of `total` bytes. -/
def readStateAt (total : ℕ) : Seeking UInt8 Fault SessionStateValue := do
  let id ← readU8At
  let shortLen ← readU8At
  let stateLen ←
    if shortLen = 0xFF then do
      let len ← readU32At
      pure len.toNat
    else pure shortLen.toNat
  let position ← Seeking.position
  let remaining ← checkedAt (Usize.sub total position)
  if stateLen > remaining then
    Seeking.reject (.error (.protocol ("SESSIONSTATE entry length " ++ toString stateLen ++
      " exceeds the " ++ toString remaining ++ " bytes remaining in the token")))
  else
    let value ← Seeking.readExact (.error .shortBuffer) stateLen
    pure { id := id, value := value.val }

/-- `while buf.position() < total`. -/
def statesRound (total : ℕ) (states : List SessionStateValue) :
    Seeking UInt8 Fault (List SessionStateValue ⊕ List SessionStateValue) := do
  let position ← Seeking.position
  if position < total then
    let state ← readStateAt total
    pure (.inr (states ++ [state]))
  else pure (.inl states)

def parseAt (total : ℕ) : Seeking UInt8 Fault TokenSessionState := do
  let seqNo ← readU32At
  let status ← readU8At
  let states ← Seeking.loop (statesRound total) []
  pure { seqNo := seqNo, status := status, states := states }

/-- What a parse of a body comes to. -/
def outcomeAt {α : Type} (computation : Seeking UInt8 Fault α) (bytes : List UInt8) :
    Except Fault α :=
  match computation.run bytes 0 with
  | .ok (value, _) => .ok value
  | .error (.error fault) => .error fault
  | .error .outOfBounds => .error .panic
  | .error .endless => .error .panic

def decodeChecked : Reader TokenSessionState := do
  let len ← readU32Le
  if len.toNat > maxTokenBody then
    protocol ("SESSIONSTATE token length " ++ toString len ++ " exceeds the maximum")
  else
    let bytes ← readExact len.toNat
    if bytes.length < 5 then
      protocol "SESSIONSTATE token too short to contain SeqNo and Status"
    else checked (outcomeAt (parseAt bytes.length) bytes)

end TokenSessionState

namespace TokenFedAuthInfo

def readU32Checked (body : List UInt8) (pos : ℕ) : Except Fault UInt32 := do
  match getRange body pos (← Usize.add pos 4) with
  | none => protocolError "FEDAUTHINFO token truncated while reading a DWORD"
  | some b =>
    let b0 ← index b 0
    let b1 ← index b 1
    let b2 ← index b 2
    let b3 ← index b 3
    .ok (getU32Le [b0, b1, b2, b3])

/-- `while idx < data_len`. -/
def unitsChecked (data : List UInt8) (dataLen : ℕ) : ℕ → ℕ → Except Fault (List UInt16)
  | 0, idx => if idx < dataLen then .error .panic else .ok []
  | fuel + 1, idx =>
    if idx < dataLen then do
      let low ← index data idx
      let high ← index data (← Usize.add idx 1)
      let units ← unitsChecked data dataLen fuel (← Usize.add idx 2)
      .ok (getU16Le [low, high] :: units)
    else .ok []

def optionValueChecked (body : List UInt8) (option : ℕ) : Except Fault String := do
  let dataLen ← readU32Checked body (← Usize.add option 1)
  let dataOffset ← readU32Checked body (← Usize.add option 5)
  match getRange body dataOffset.toNat (← Usize.add dataOffset.toNat dataLen.toNat) with
  | none => protocolError "FEDAUTHINFO token data offset out of bounds"
  | some data =>
    if dataLen.toNat % 2 ≠ 0 then protocolError "FEDAUTHINFO token data is not valid UTF-16"
    else
      let units ← unitsChecked data dataLen.toNat dataLen.toNat 0
      match fromUtf16 units with
      | some value => .ok value
      | none => protocolError "FEDAUTHINFO token data is not valid UTF-16"

def parseOptionsChecked (body : List UInt8) :
    ℕ → ℕ → TokenFedAuthInfo → Except Fault TokenFedAuthInfo
  | 0, _, info => .ok info
  | count + 1, i, info => do
    let opt ← Usize.add 4 (← Usize.mul i 9)
    match body[opt]? with
    | none => protocolError "FEDAUTHINFO token truncated while reading an option id"
    | some id =>
      let value ← optionValueChecked body opt
      let info :=
        if id = 0x01 then { info with stsUrl := some value }
        else if id = 0x02 then { info with spn := some value }
        else info
      parseOptionsChecked body count (i + 1) info

def parseChecked (body : List UInt8) : Except Fault TokenFedAuthInfo := do
  let count ← readU32Checked body 0
  parseOptionsChecked body count.toNat 0 { stsUrl := none, spn := none }

def decodeChecked : Reader TokenFedAuthInfo := do
  let tokenLength ← Reader.readU32Le
  if tokenLength.toNat > maxTokenBody then
    protocol ("FEDAUTHINFO token length " ++ toString tokenLength ++ " exceeds the maximum")
  else
    let body ← readExact tokenLength.toNat
    checked (parseChecked body)

end TokenFedAuthInfo

/-- The width of the length in front of a token's body. -/
def TokenType.lengthBytes : TokenType → Option ℕ
  | envChange | error | info | tabName | colInfo | order | loginAck => some 2
  | sessionState | fedAuthInfo => some 4
  | _ => none

/-- The body of a token, with the checks. ERROR, INFO and ORDER index nothing and
compute no lengths. -/
def TokenType.decodeBodyChecked [EncodingRs] : TokenType → Reader ReceivedToken
  | envChange => do
    let change ← TokenEnvChange.decodeChecked
    pure (.envChange change)
  | tabName => do
    let names ← TokenTabName.decodeChecked
    pure (.tabName names)
  | colInfo => do
    let info ← TokenColInfo.decodeChecked
    pure (.colInfo info)
  | loginAck => do
    let ack ← TokenLoginAck.decodeChecked
    pure (.loginAck ack)
  | sessionState => do
    let state ← TokenSessionState.decodeChecked
    pure (.sessionState state)
  | fedAuthInfo => do
    let info ← TokenFedAuthInfo.decodeChecked
    pure (.fedAuthInfo info)
  | ty => ty.decodeBody

theorem ok_bind {ε α β : Type} (value : α) (f : α → Except ε β) :
    (Except.ok value >>= f) = f value := rfl

theorem error_bind {ε α β : Type} (error : ε) (f : α → Except ε β) :
    (Except.error error >>= f) = .error error := rfl

theorem Cursor.bind_ok {α β : Type} {cursor : Cursor α} {f : α → Cursor β} {value : α}
    {bytes rest : List UInt8} (hcursor : cursor bytes = .ok (value, rest)) :
    (cursor >>= f) bytes = f value rest := by
  change (cursor bytes >>= fun result => f result.1 result.2) = _
  rw [hcursor]
  rfl

theorem Cursor.bind_error {α β : Type} {cursor : Cursor α} {f : α → Cursor β} {error : Error}
    {bytes : List UInt8} (hcursor : cursor bytes = .error error) :
    (cursor >>= f) bytes = .error error := by
  change (cursor bytes >>= fun result => f result.1 result.2) = _
  rw [hcursor]
  rfl

theorem Cursor.take_of_le {count : ℕ} {bytes : List UInt8} (hcount : count ≤ bytes.length) :
    Cursor.take count bytes = .ok (bytes.take count, bytes.drop count) := if_pos hcount

theorem Cursor.take_of_lt {count : ℕ} {bytes : List UInt8} (hcount : bytes.length < count) :
    Cursor.take count bytes = .error .shortBuffer := if_neg (Nat.not_le.mpr hcount)

theorem Slice.index_eq {data : List UInt8} {pos : ℕ} (hpos : pos < data.length) :
    index data pos = .ok data[pos] := by
  rw [index, List.getElem?_eq_getElem hpos]

theorem sure_bind {α β : Type} (result : Except Error α) (f : α → Except Error β) :
    sure (result >>= f) = sure result >>= fun value => sure (f value) := by
  cases result with
  | ok value => rfl
  | error error => rfl

/-- Two bytes of a body that are read by their indices. -/
theorem Slice.index_two {data : List UInt8} {pos : ℕ} (hdata : data.length < 2 ^ 32)
    (hpos : pos + 2 ≤ data.length) :
    ∃ low high, index data pos = .ok low ∧ Usize.add pos 1 = .ok (pos + 1) ∧
      index data (pos + 1) = .ok high ∧ data.drop pos = low :: high :: data.drop (pos + 2) := by
  have hlow : pos < data.length := by omega
  have hhigh : pos + 1 < data.length := by omega
  refine ⟨data[pos], data[pos + 1], index_eq hlow, Usize.add_ok (by omega), index_eq hhigh, ?_⟩
  rw [List.drop_eq_getElem_cons hlow, List.drop_eq_getElem_cons hhigh]

namespace TokenTabName

/-- The units of a part that lies in the body. -/
theorem unitsAt_eq {data : List UInt8} (hdata : data.length < 2 ^ 32) (count pos : ℕ)
    (hpos : pos + count * 2 ≤ data.length) :
    unitsAt data count pos =
      .ok (unitsLe ((data.drop pos).take (count * 2)), pos + count * 2) := by
  induction count generalizing pos with
  | zero => rfl
  | succ count ih =>
    obtain ⟨low, high, hlow, hone, hhigh, hdrop⟩ := @Slice.index_two data pos hdata (by omega)
    have htwo : Usize.add pos 2 = .ok (pos + 2) := Usize.add_ok (by omega)
    have hcount : (count + 1) * 2 = count * 2 + 1 + 1 := by omega
    simp only [unitsAt, hlow, hone, hhigh, htwo, ok_bind, ih (pos + 2) (by omega), hdrop, hcount,
      List.take_succ_cons, unitsLe]
    congr 2
    omega

/-- The parts at a position are those of the bytes from there on. -/
theorem partsAt_eq {data : List UInt8} (hdata : data.length < 2 ^ 32) (count pos : ℕ)
    (hpos : pos ≤ data.length) :
    (∃ error, parseParts count (data.drop pos) = .error error ∧
      partsAt data count pos = .error (.error error)) ∨
    ∃ parts target, pos ≤ target ∧ target ≤ data.length ∧
      parseParts count (data.drop pos) = .ok (parts, data.drop target) ∧
      partsAt data count pos = .ok (parts, target) := by
  induction count generalizing pos with
  | zero => exact .inr ⟨[], pos, Nat.le_refl _, hpos, rfl, rfl⟩
  | succ count ih =>
    have htwo : Usize.add pos 2 = .ok (pos + 2) := Usize.add_ok (by omega)
    simp only [partsAt, parseParts, htwo, ok_bind, List.length_drop]
    by_cases hlength : data.length < pos + 2
    · exact .inl ⟨_, if_pos (by omega), if_pos hlength⟩
    · obtain ⟨low, high, hlow, hone, hhigh, hdrop⟩ := @Slice.index_two data pos hdata (by omega)
      have hunit := (getU16Le [low, high]).toNat_lt
      have hmul : Usize.mul (getU16Le [low, high]).toNat 2 =
          .ok ((getU16Le [low, high]).toNat * 2) := Usize.mul_ok (by omega)
      have hstop : Usize.add (pos + 2) ((getU16Le [low, high]).toNat * 2) =
          .ok (pos + 2 + (getU16Le [low, high]).toNat * 2) := Usize.add_ok (by omega)
      have htake : (low :: high :: data.drop (pos + 2)).take 2 = [low, high] := rfl
      have hbehind : (low :: high :: data.drop (pos + 2)).drop 2 = data.drop (pos + 2) := rfl
      rw [if_neg (by omega), if_neg hlength]
      simp only [hlow, hone, hhigh, ok_bind, hdrop, htake, hbehind, hmul, hstop]
      generalize (getU16Le [low, high]).toNat = charCount at *
      by_cases hname : data.length < pos + 2 + charCount * 2
      · exact .inl ⟨_, if_pos (by omega), if_pos hname⟩
      · rw [if_neg (by omega), if_neg hname, unitsAt_eq hdata charCount (pos + 2) (by omega)]
        simp only [ok_bind]
        cases fromUtf16 (unitsLe ((data.drop (pos + 2)).take (charCount * 2))) with
        | none => exact .inl ⟨_, rfl, rfl⟩
        | some part =>
          rw [List.drop_drop]
          rcases ih (pos + 2 + charCount * 2) (by omega) with ⟨error, hparse, hat⟩ |
            ⟨parts, target, hforward, hinside, hparse, hat⟩
          · refine .inl ⟨error, ?_, ?_⟩
            · simp only [hparse, error_bind]
            · simp only [hat, error_bind]
          · refine .inr ⟨part :: parts, target, by omega, hinside, ?_, ?_⟩
            · simp only [hparse, ok_bind]
              rfl
            · simp only [hat, ok_bind]

/-- The loop over the tables ends within the body and does what the parser of the
bytes does. -/
theorem tablesAt_eq {data : List UInt8} (hdata : data.length < 2 ^ 32) (fuel pos : ℕ)
    (hpos : pos ≤ data.length) (hfuel : data.length - pos ≤ fuel) :
    tablesAt data fuel pos = sure (parseTables fuel (data.drop pos)) := by
  induction fuel generalizing pos with
  | zero =>
    rw [tablesAt, if_neg (by omega)]
    rfl
  | succ fuel ih =>
    rw [tablesAt]
    by_cases hend : pos < data.length
    · have hone : Usize.add pos 1 = .ok (pos + 1) := Usize.add_ok (by omega)
      rw [if_pos hend, index_eq hend, List.drop_eq_getElem_cons hend, parseTables]
      simp only [ok_bind, hone]
      rcases partsAt_eq hdata data[pos].toNat (pos + 1) hend with ⟨error, hparse, hat⟩ |
        ⟨parts, target, hforward, hinside, hparse, hat⟩
      · rw [hparse, hat]
        rfl
      · rw [hparse, hat]
        simp only [ok_bind]
        rw [ih target hinside (by omega), sure_bind]
        rfl
    · rw [if_neg hend, List.drop_eq_nil_of_le (Nat.le_of_not_lt hend), parseTables]
      rfl

end TokenTabName

/-- The errors that are returned. -/
def Returned (fault : Fault) : Prop := ∃ error, fault = .error error

section

variable {α : Type}

theorem readExact_ends (count : ℕ) :
    (Reader.readExact count).Ends (fun taken => taken.length = count) Returned :=
  fun _ htaken => htaken

theorem readWindows_ends {cap : ℕ} (hcap : 0 < cap) (fuel remaining : ℕ)
    (hfuel : remaining ≤ fuel) :
    (readWindows cap fuel remaining).Ends (fun taken => taken.length = remaining) Returned := by
  induction fuel generalizing remaining with
  | zero =>
    obtain rfl := Nat.le_zero.mp hfuel
    exact rfl
  | succ fuel ih =>
    rw [readWindows]
    split
    next hzero =>
      subst hzero
      exact rfl
    next hpos =>
      refine (readExact_ends _).bind fun window hwindow => ?_
      refine (ih (remaining - min remaining cap) (by omega)).bind fun rest hrest => ?_
      change (window ++ rest).length = remaining
      rw [List.length_append, hwindow, hrest]
      omega

theorem readBytesInto_ends {cap : ℕ} (hcap : 0 < cap) (len : ℕ) :
    (readBytesInto len cap).Ends (fun taken => taken.length = len) Returned :=
  readWindows_ends hcap len len (Nat.le_refl _)

theorem checked_sure (result : Except Error α) : checked (sure result) = ofResult result := by
  cases result with
  | ok value => rfl
  | error error => rfl

end

/-- The two decoders of a token end alike. -/
abbrev Alike {α : Type} (checked plain : Reader α) : Prop := Agree Eq checked plain

theorem TokenTabName.alike : Alike decodeChecked decode := by
  refine Agree.after readU16Le fun len => ?_
  refine (readBytesInto_ends (by decide) len.toNat).agree.bind ?_
  rintro data _ ⟨rfl, hlength⟩
  have hlen := len.toNat_lt
  have htables := @tablesAt_eq data (by omega) data.length 0 (Nat.zero_le _) (Nat.le_refl _)
  rw [htables, checked_sure]
  exact .refl _

/-- The name of an entry ends where the room in the token says. -/
theorem ColInfo.decodeNameChecked_agree {length consumed : ℕ} (status : UInt8)
    (hlength : length < 2 ^ 16) (hconsumed : consumed ≤ length) :
    Agree (fun checked plain => checked.1 = plain.1 ∧ checked.2 = consumed + plain.2 ∧
      plain.2 ≤ length - consumed)
      (decodeNameChecked length status consumed) (decodeName status (length - consumed)) := by
  rw [decodeNameChecked, decodeName]
  split
  · exact .ret ⟨rfl, rfl, Nat.zero_le _⟩
  · rw [Usize.sub_ok hconsumed]
    change Agree _ (if length - consumed < 1 then _ else _) _
    split
    · exact .fail _
    next hroom =>
      refine Agree.after Reader.readU8 fun charLen => ?_
      have hchar := charLen.toNat_lt
      have hone : Usize.add consumed 1 = .ok (consumed + 1) := Usize.add_ok (by omega)
      have hbytes : Usize.mul charLen.toNat 2 = .ok (charLen.toNat * 2) := Usize.mul_ok (by omega)
      have hleft : Usize.sub length (consumed + 1) = .ok (length - (consumed + 1)) :=
        Usize.sub_ok (by omega)
      rw [hone, hbytes]
      change Agree _ ((checked (Usize.sub length (consumed + 1))).bind _) _
      rw [hleft]
      change Agree _ (if length - (consumed + 1) < charLen.toNat * 2 then _ else _) _
      by_cases hname : length - (consumed + 1) < charLen.toNat * 2
      · rw [if_pos hname, if_pos (by omega)]
        exact .fail _
      · rw [if_neg hname, if_neg (by omega)]
        refine Agree.after _ fun units => ?_
        have hend : Usize.add (consumed + 1) (charLen.toNat * 2) =
            .ok (consumed + 1 + charLen.toNat * 2) := Usize.add_ok (by omega)
        rw [hend]
        change Agree _ (match fromUtf16 units with
          | some text => Program.ret (some text, consumed + 1 + charLen.toNat * 2)
          | none => _) _
        cases fromUtf16 units with
        | none => exact .fail _
        | some text => exact .ret ⟨rfl, by omega, by omega⟩

namespace TokenColInfo

theorem decodeEntriesChecked_agree {length : ℕ} (hlength : length < 2 ^ 16) (fuel consumed : ℕ)
    (hconsumed : consumed ≤ length) (hfuel : length - consumed ≤ fuel) :
    Alike (decodeEntriesChecked length fuel consumed) (decodeEntries fuel (length - consumed)) := by
  induction fuel generalizing consumed with
  | zero =>
    rw [decodeEntriesChecked, if_neg (by omega)]
    exact .refl _
  | succ fuel ih =>
    rw [decodeEntriesChecked, decodeEntries]
    by_cases hend : consumed < length
    · rw [if_pos hend, if_neg (by omega), Usize.sub_ok hconsumed]
      change Agree _ (if length - consumed < 3 then _ else _) _
      split
      · exact .fail _
      next hroom =>
        refine Agree.after Reader.readU8 fun colNum => ?_
        refine Agree.after Reader.readU8 fun tableNum => ?_
        refine Agree.after Reader.readU8 fun status => ?_
        have hthree : Usize.add consumed 3 = .ok (consumed + 3) := Usize.add_ok (by omega)
        have hname := @ColInfo.decodeNameChecked_agree length (consumed + 3) status hlength
          (by omega)
        rw [hthree]
        refine hname.bind ?_
        rintro ⟨name, after⟩ ⟨other, taken⟩ ⟨hsame, hafter, htaken⟩
        obtain rfl : name = other := hsame
        obtain rfl : after = consumed + 3 + taken := hafter
        change taken ≤ length - (consumed + 3) at htaken
        have hrest := ih (consumed + 3 + taken) (by omega) (by omega)
        have hroom : length - consumed - 3 - taken = length - (consumed + 3 + taken) := by omega
        simp only [hroom]
        refine hrest.bind ?_
        rintro rest _ rfl
        exact .ret rfl
    · rw [if_neg hend, if_pos (by omega)]
      exact .refl _

theorem alike : Alike decodeChecked decode := by
  refine Agree.after readU16Le fun length => ?_
  have hentries := decodeEntriesChecked_agree (length.toNat_lt) length.toNat 0 (Nat.zero_le _)
    (Nat.le_refl _)
  refine hentries.bind ?_
  rintro columns _ rfl
  exact .ret rfl

end TokenColInfo

theorem TokenLoginAck.alike : Alike decodeChecked decode := by
  refine Agree.after readU16Le fun length => ?_
  by_cases hshort : length.toNat < loginAckFixedPrefix
  · rw [if_pos hshort, if_pos hshort]
    exact .refl _
  · rw [if_neg hshort, if_neg hshort]
    refine Agree.after Reader.readU8 fun interface => ?_
    refine Agree.after Reader.readU32 fun version => ?_
    cases FeatureLevel.tryFrom version with
    | none => exact .fail _
    | some tdsVersion =>
      simp only
      rw [Usize.sub_ok (Nat.le_of_not_lt hshort)]
      exact .refl _

namespace TokenEnvChange

theorem sure_cursor_bind {α β : Type} (cursor : Cursor α) (f : α → Cursor β) :
    (cursor >>= f).sure = cursor.sure >>= fun value => (f value).sure := by
  funext bytes
  change Tiberius.sure ((cursor bytes) >>= fun result => f result.1 result.2) = _
  rw [sure_bind]
  rfl

/-- A list of five bytes, taken apart by its indices. -/
theorem index_five {value : List UInt8} (hlength : value.length = 5) :
    ∃ b0 b1 b2 b3 b4, value = [b0, b1, b2, b3, b4] := by
  obtain ⟨b0, rest, rfl⟩ := List.exists_cons_of_length_eq_add_one hlength
  obtain ⟨b1, rest, rfl⟩ := List.exists_cons_of_length_eq_add_one (Nat.succ.inj hlength)
  obtain ⟨b2, rest, rfl⟩ :=
    List.exists_cons_of_length_eq_add_one (Nat.succ.inj (Nat.succ.inj hlength))
  simp only [List.length_cons] at hlength
  obtain ⟨b3, b4, rfl⟩ := List.length_eq_two.mp (show rest.length = 2 by omega)
  exact ⟨b0, b1, b2, b3, b4, rfl⟩

theorem readCollationChecked_eq : readCollationChecked = readCollation.sure := by
  rw [readCollation, sure_cursor_bind, readCollationChecked]
  congr 1
  funext len
  rw [sure_cursor_bind]
  funext bytes
  by_cases hcount : len.toNat ≤ bytes.length
  · have htake := Cursor.take_of_le hcount
    have hlength : (bytes.take len.toNat).length = len.toNat := List.length_take_of_le hcount
    generalize bytes.take len.toNat = value at *
    generalize bytes.drop len.toNat = rest at *
    change (Tiberius.sure (Cursor.take len.toNat bytes) >>= _) =
      (Tiberius.sure (Cursor.take len.toNat bytes) >>= _)
    rw [htake]
    by_cases hfive : len = 5
    · subst hfive
      obtain ⟨b0, b1, b2, b3, b4, rfl⟩ := index_five hlength
      rfl
    · simp only [sure, ok_bind, hfive, if_false]
      rfl
  · have htake := Cursor.take_of_lt (Nat.lt_of_not_le hcount)
    change (Tiberius.sure (Cursor.take len.toNat bytes) >>= _) =
      (Tiberius.sure (Cursor.take len.toNat bytes) >>= _)
    rw [htake]
    rfl

theorem parseBodyChecked_eq (ty : EnvChangeTy) : parseBodyChecked ty = (parseBody ty).sure := by
  cases ty with
  | sqlCollation =>
    rw [parseBodyChecked, parseBody, readCollationChecked_eq, sure_cursor_bind]
    congr 1
    funext new
    rw [sure_cursor_bind]
    rfl
  | _ => rfl

theorem parse_sure {α : Type} (cursor : Cursor α) (bytes : List UInt8) :
    CheckedCursor.parse cursor.sure bytes = Cursor.parse cursor bytes := by
  change checked ((Tiberius.sure (cursor bytes)).map Prod.fst) =
    ofResult ((cursor bytes).map Prod.fst)
  cases cursor bytes with
  | ok result => rfl
  | error error => rfl

theorem alike : Alike decodeChecked decode := by
  refine Agree.after readU16Le fun len => ?_
  refine Agree.after (Reader.readExact len.toNat) fun bytes => ?_
  rw [← parse_sure, sure_cursor_bind]
  have hnext : ∀ byte : UInt8, (match EnvChangeTy.tryFrom byte with
      | none => throw (Fault.error (.protocol ("invalid envchange type " ++
          String.ofList (Nat.toDigits 16 byte.toNat))))
      | some ty => parseBodyChecked ty : CheckedCursor TokenEnvChange) =
      Cursor.sure (match EnvChangeTy.tryFrom byte with
        | none => throw (.protocol ("invalid envchange type " ++
            String.ofList (Nat.toDigits 16 byte.toNat)))
        | some ty => parseBody ty) := by
    intro byte
    cases EnvChangeTy.tryFrom byte with
    | none => rfl
    | some ty => exact parseBodyChecked_eq ty
  simp only [hnext]
  exact .refl _

end TokenEnvChange

namespace TokenSessionState

open Seeking

/-- Reading at a position does what parsing the bytes from there on does, and
moves on by at least so many bytes. -/
def Follows {α : Type} (data : List UInt8) (least : ℕ) (computation : Seeking UInt8 Fault α)
    (cursor : Cursor α) : Prop :=
  ∀ pos, pos ≤ data.length →
    (∃ error, cursor (data.drop pos) = .error error ∧
      computation.run data pos = .error (.error (.error error))) ∨
    ∃ value target, pos + least ≤ target ∧ target ≤ data.length ∧
      cursor (data.drop pos) = .ok (value, data.drop target) ∧
      computation.run data pos = .ok (value, target)

section

variable {α β : Type} {data : List UInt8}

theorem follows_pure (value : α) : Follows data 0 (pure value) (pure value) := by
  intro pos hpos
  exact .inr ⟨value, pos, Nat.le_refl _, hpos, rfl, rfl⟩

theorem Follows.bind {least more : ℕ} {computation : Seeking UInt8 Fault α} {cursor : Cursor α}
    {f : α → Seeking UInt8 Fault β} {g : α → Cursor β}
    (hfirst : Follows data least computation cursor)
    (hnext : ∀ value, Follows data more (f value) (g value)) :
    Follows data (least + more) (computation >>= f) (cursor >>= g) := by
  intro pos hpos
  rcases hfirst pos hpos with ⟨error, hcursor, hrun⟩ |
    ⟨value, middle, hmiddle, hinside, hcursor, hrun⟩
  · refine .inl ⟨error, Cursor.bind_error hcursor, ?_⟩
    rw [bind_apply, hrun]
  · rw [Cursor.bind_ok hcursor, bind_ok hrun]
    rcases hnext value middle hinside with ⟨error, hcursor', hrun'⟩ |
      ⟨other, target, htarget, hend, hcursor', hrun'⟩
    · exact .inl ⟨error, hcursor', hrun'⟩
    · exact .inr ⟨other, target, by omega, hend, hcursor', hrun'⟩

/-- A read at a position and what is made of it. -/
theorem follows_take {least count : ℕ} {f : List UInt8 → Seeking UInt8 Fault α}
    {g : List UInt8 → Cursor α} (hnext : ∀ piece, Follows data least (f piece) (g piece)) :
    Follows data (count + least)
      (Seeking.readExact (Fault.error .shortBuffer) count >>= fun bytes => f bytes.val)
      (Cursor.take count >>= g) := by
  intro pos hpos
  by_cases hcount : count ≤ (data.drop pos).length
  · have hread : (Seeking.readExact (Fault.error .shortBuffer) count).run data pos =
        .ok (⟨(data.drop pos).take count, List.length_take_of_le hcount⟩, pos + count) := by
      rw [readExact_eq, dif_pos hcount]
    have hinside : pos + count ≤ data.length := by
      rw [List.length_drop] at hcount
      omega
    rw [Cursor.bind_ok (Cursor.take_of_le hcount), List.drop_drop, bind_ok hread]
    rcases hnext _ (pos + count) hinside with ⟨error, hcursor, hrun⟩ |
      ⟨value, target, htarget, hend, hcursor, hrun⟩
    · exact .inl ⟨error, hcursor, hrun⟩
    · exact .inr ⟨value, target, by omega, hend, hcursor, hrun⟩
  · refine .inl ⟨.shortBuffer, ?_, ?_⟩
    · exact Cursor.bind_error (Cursor.take_of_lt (Nat.lt_of_not_le hcount))
    · rw [bind_apply, readExact_eq, dif_neg hcount]

theorem Follows.mono {least more : ℕ} {computation : Seeking UInt8 Fault α} {cursor : Cursor α}
    (hfollows : Follows data more computation cursor) (hle : least ≤ more) :
    Follows data least computation cursor := by
  intro pos hpos
  rcases hfollows pos hpos with herror | ⟨value, target, htarget, hrest⟩
  · exact .inl herror
  · exact .inr ⟨value, target, by omega, hrest⟩

theorem follows_readU8 : Follows data 1 readU8At Cursor.readU8 :=
  follows_take fun _ => follows_pure _

theorem follows_readU32 : Follows data 4 readU32At Cursor.readU32 :=
  follows_take fun _ => follows_pure _

end

/-- The room that is left behind the length of an entry is computed without an
underflow. -/
theorem follows_value (data : List UInt8) (id : UInt8) (stateLen : ℕ) :
    Follows data 0
      (do
        let position ← Seeking.position
        let remaining ← checkedAt (Usize.sub data.length position)
        if stateLen > remaining then
          Seeking.reject (.error (.protocol ("SESSIONSTATE entry length " ++ toString stateLen ++
            " exceeds the " ++ toString remaining ++ " bytes remaining in the token")))
        else
          let value ← Seeking.readExact (.error .shortBuffer) stateLen
          pure { id := id, value := value.val })
      (do
        let remaining := (← get).length
        if stateLen > remaining then
          throw (.protocol ("SESSIONSTATE entry length " ++ toString stateLen ++ " exceeds the " ++
            toString remaining ++ " bytes remaining in the token"))
        else
          let value ← Cursor.take stateLen
          pure ({ id := id, value := value } : SessionStateValue)) := by
  intro pos hpos
  have hsub : Usize.sub data.length pos = .ok (data.length - pos) := Usize.sub_ok hpos
  have hroom : (checkedAt (Usize.sub data.length pos)).run data pos =
      .ok (data.length - pos, pos) := by
    rw [hsub]
    rfl
  have hposition : (Seeking.position : Seeking UInt8 Fault ℕ).run data pos = .ok (pos, pos) := rfl
  rw [bind_ok hposition, bind_ok hroom, ← List.length_drop]
  by_cases hlong : stateLen > (data.drop pos).length
  · rw [if_pos hlong]
    refine .inl ⟨_, ?_, rfl⟩
    exact congrFun (if_pos hlong) (data.drop pos)
  · rw [if_neg hlong]
    have hvalue : Follows data stateLen _ _ :=
      @follows_take _ data 0 stateLen
        (fun value => pure ({ id := id, value := value } : SessionStateValue))
        (fun value => pure ({ id := id, value := value } : SessionStateValue))
        fun value => follows_pure _
    have hnext := hvalue.mono (Nat.zero_le _) pos hpos
    change (∃ error, (if stateLen > (data.drop pos).length then _ else _ : Cursor SessionStateValue)
        (data.drop pos) = .error error ∧ _) ∨
      ∃ value target, _ ∧ _ ∧
        (if stateLen > (data.drop pos).length then _ else _ : Cursor SessionStateValue)
          (data.drop pos) = _ ∧ _
    rw [if_neg hlong]
    exact hnext

theorem follows_readState (data : List UInt8) :
    Follows data 2 (readStateAt data.length) readState := by
  change Follows data (1 + (1 + 0)) _ _
  refine follows_readU8.bind fun id => ?_
  refine follows_readU8.bind fun shortLen => ?_
  have hvalue := follows_value data id
  by_cases hlong : shortLen = 0xFF
  · rw [if_pos hlong, if_pos hlong]
    exact (follows_readU32.bind fun len => hvalue len.toNat).mono (Nat.zero_le _)
  · rw [if_neg hlong, if_neg hlong]
    exact hvalue shortLen.toNat

theorem rounds_end (data : List UInt8) (fuel : ℕ) (states : List SessionStateValue) :
    (rounds (statesRound data.length) (fuel + 1) states).run data data.length =
      .ok (states, data.length) := by
  have hround : (statesRound data.length states).run data data.length =
      .ok (.inl states, data.length) := by
    rw [statesRound]
    change ((if data.length < data.length then _ else _ : Seeking UInt8 Fault _)).run data _ = _
    rw [if_neg (Nat.lt_irrefl _)]
    rfl
  rw [rounds, bind_ok hround]
  rfl

/-- The loop over the entries ends with the body, where the parser of the bytes
ends, and its sum of rounds is not exhausted. -/
theorem rounds_statesRound {data : List UInt8} (fuel pos : ℕ) (before : List SessionStateValue)
    (hpos : pos ≤ data.length) (hfuel : data.length - pos ≤ fuel) :
    (∃ error, readStates fuel (data.drop pos) = .error error ∧
      (rounds (statesRound data.length) (fuel + 1) before).run data pos =
        .error (.error (.error error))) ∨
    ∃ states, readStates fuel (data.drop pos) = .ok (states, []) ∧
      (rounds (statesRound data.length) (fuel + 1) before).run data pos =
        .ok (before ++ states, data.length) := by
  induction fuel generalizing pos before with
  | zero =>
    obtain rfl : pos = data.length := by omega
    refine .inr ⟨[], ?_, ?_⟩
    · rw [List.drop_length]
      rfl
    · rw [List.append_nil, rounds_end]
  | succ fuel ih =>
    by_cases hinside : pos < data.length
    · have hround : (statesRound data.length before).run data pos =
          (readStateAt data.length >>= fun state =>
            pure (Sum.inr (before ++ [state]))).run data pos := by
        rw [statesRound]
        change ((if pos < data.length then _ else _ : Seeking UInt8 Fault _)).run data _ = _
        rw [if_pos hinside]
      have hstates : readStates (fuel + 1) (data.drop pos) =
          (readState >>= fun state => readStates fuel >>= fun rest => pure (state :: rest))
            (data.drop pos) := by
        have hne : (data.drop pos).isEmpty = false := by
          rw [List.drop_eq_getElem_cons hinside]
          rfl
        rw [readStates]
        change (if (data.drop pos).isEmpty = true then _ else _ : Cursor _) (data.drop pos) = _
        rw [hne]
        rfl
      rw [rounds, bind_apply, hround, hstates]
      rcases follows_readState data pos hpos with ⟨error, hcursor, hrun⟩ |
        ⟨state, target, hforward, htarget, hcursor, hrun⟩
      · refine .inl ⟨error, Cursor.bind_error hcursor, ?_⟩
        rw [bind_apply, hrun]
      · rw [bind_ok hrun, Cursor.bind_ok hcursor]
        rcases ih target (before ++ [state]) htarget (by omega) with ⟨error, hrest, hloop⟩ |
          ⟨states, hrest, hloop⟩
        · exact .inl ⟨error, Cursor.bind_error hrest, hloop⟩
        · refine .inr ⟨state :: states, Cursor.bind_ok hrest, ?_⟩
          have happend : before ++ state :: states = before ++ [state] ++ states :=
            List.append_cons before state states
          rw [happend]
          exact hloop
    · obtain rfl : pos = data.length := by omega
      refine .inr ⟨[], ?_, ?_⟩
      · rw [List.drop_length]
        rfl
      · rw [List.append_nil, rounds_end]

theorem follows_loop (data : List UInt8) :
    Follows data 0 (loop (statesRound data.length) []) (readStates data.length) := by
  intro pos hpos
  rcases rounds_statesRound data.length pos [] hpos (Nat.sub_le _ _) with ⟨error, hcursor, hrun⟩ |
    ⟨states, hcursor, hrun⟩
  · exact .inl ⟨error, hcursor, hrun⟩
  · refine .inr ⟨states, data.length, hpos, Nat.le_refl _, ?_, hrun⟩
    rw [List.drop_length]
    exact hcursor

/-- Parsing a body at positions comes to what parsing its bytes comes to. -/
theorem outcomeAt_eq (data : List UInt8) :
    outcomeAt (parseAt data.length) data = sure ((parse data data).map Prod.fst) := by
  have hparse : Follows data 0 (parseAt data.length) (parse data) := by
    have hstates : ∀ seqNo status, Follows data 0 _ _ := fun seqNo status =>
      (follows_loop data).bind fun states =>
        follows_pure ({ seqNo, status, states } : TokenSessionState)
    exact (follows_readU32.bind fun seqNo => follows_readU8.bind fun status =>
      hstates seqNo status).mono (Nat.zero_le _)
  rcases hparse 0 (Nat.zero_le _) with ⟨error, hcursor, hrun⟩ |
    ⟨state, target, -, -, hcursor, hrun⟩
  · rw [List.drop_zero] at hcursor
    rw [outcomeAt, hrun, hcursor]
    rfl
  · rw [List.drop_zero] at hcursor
    rw [outcomeAt, hrun, hcursor]
    rfl

theorem alike : Alike decodeChecked decode := by
  refine Agree.after readU32Le fun len => ?_
  split
  · exact .fail _
  · refine Agree.after (Reader.readExact len.toNat) fun bytes => ?_
    split
    · exact .fail _
    · rw [outcomeAt_eq, checked_sure]
      exact .refl _

end TokenSessionState

namespace TokenFedAuthInfo

theorem readU32Checked_eq {body : List UInt8} {pos : ℕ} (hpos : pos + 4 < 2 ^ 64) :
    readU32Checked body pos = sure (readU32 body pos) := by
  rw [readU32Checked, readU32, Usize.add_ok hpos]
  simp only [ok_bind, getRange]
  by_cases hinside : pos + 4 ≤ body.length
  · have hlength : ((body.drop pos).take (pos + 4 - pos)).length = 4 := by
      rw [List.length_take, List.length_drop]
      omega
    have hwidth : pos + 4 - pos = 4 := by omega
    rw [if_pos ⟨by omega, hinside⟩, if_pos hinside]
    rw [hwidth] at hlength ⊢
    generalize (body.drop pos).take 4 = bytes at *
    obtain ⟨b0, rest, rfl⟩ := List.exists_cons_of_length_eq_add_one hlength
    obtain ⟨b1, b2, b3, rfl⟩ := List.length_eq_three.mp (Nat.succ.inj hlength)
    rfl
  · rw [if_neg fun hrange => hinside hrange.2, if_neg hinside]
    rfl

/-- The units of a slice with an even number of bytes. -/
theorem unitsChecked_eq {data : List UInt8} (hdata : data.length < 2 ^ 32)
    (heven : data.length % 2 = 0) (fuel idx : ℕ) (hidx : idx ≤ data.length) (hidxEven : idx % 2 = 0)
    (hfuel : data.length - idx ≤ fuel) :
    unitsChecked data data.length fuel idx = .ok (unitsLe (data.drop idx)) := by
  induction fuel generalizing idx with
  | zero =>
    rw [unitsChecked, if_neg (by omega), List.drop_eq_nil_of_le (by omega)]
    rfl
  | succ fuel ih =>
    rw [unitsChecked]
    by_cases hend : idx < data.length
    · obtain ⟨low, high, hlow, hone, hhigh, hdrop⟩ := @Slice.index_two data idx hdata (by omega)
      have htwo : Usize.add idx 2 = .ok (idx + 2) := Usize.add_ok (by omega)
      have hrest := ih (idx + 2) (by omega) (by omega) (by omega)
      rw [if_pos hend]
      simp only [hlow, hone, hhigh, htwo, ok_bind, hrest, hdrop, unitsLe]
    · rw [if_neg hend, List.drop_eq_nil_of_le (Nat.le_of_not_lt hend)]
      rfl

/-- The offset and the length of a text fit 32 bits each, so their sum is no
overflow, and the slice that they select is the one that is read. -/
theorem optionValueChecked_eq {body : List UInt8} {option : ℕ} (hoption : option + 9 < 2 ^ 64) :
    optionValueChecked body option = sure (optionValue body option) := by
  have hone : Usize.add option 1 = .ok (option + 1) := Usize.add_ok (by omega)
  have hfive : Usize.add option 5 = .ok (option + 5) := Usize.add_ok (by omega)
  rw [optionValueChecked, optionValue, sure_bind, hone]
  simp only [ok_bind, hfive]
  rw [readU32Checked_eq (by omega)]
  congr 1
  funext dataLen
  rw [sure_bind, readU32Checked_eq (by omega)]
  congr 1
  funext dataOffset
  have hlen := dataLen.toNat_lt
  have hoffset := dataOffset.toNat_lt
  rw [Usize.add_ok (by omega)]
  simp only [ok_bind, getRange]
  by_cases hinside : dataOffset.toNat + dataLen.toNat ≤ body.length
  · have hwidth : dataOffset.toNat + dataLen.toNat - dataOffset.toNat = dataLen.toNat := by omega
    have hlength : ((body.drop dataOffset.toNat).take dataLen.toNat).length = dataLen.toNat := by
      rw [List.length_take, List.length_drop]
      omega
    rw [if_pos ⟨by omega, hinside⟩, if_neg (by omega), hwidth]
    generalize (body.drop dataOffset.toNat).take dataLen.toNat = data at *
    by_cases hodd : dataLen.toNat % 2 ≠ 0
    · rw [if_pos hodd]
      exact if_pos hodd
    · have hunits := @unitsChecked_eq data (by omega) (by omega) data.length 0 (Nat.zero_le _) rfl
        (Nat.le_refl _)
      rw [hlength, List.drop_zero] at hunits
      rw [if_neg hodd]
      simp only [hodd, if_false, hunits, ok_bind]
      cases fromUtf16 (unitsLe data) with
      | none => rfl
      | some value => rfl
  · rw [if_neg fun hrange => hinside hrange.2, if_pos (by omega)]
    rfl

/-- No option count is too large: the offset of an option in 32 bits is far from
the end of `usize`. -/
theorem parseOptionsChecked_eq (body : List UInt8) (count i : ℕ) (info : TokenFedAuthInfo)
    (hcount : i + count < 2 ^ 32) :
    parseOptionsChecked body count i info = sure (parseOptions body count i info) := by
  induction count generalizing i info with
  | zero => rfl
  | succ count ih =>
    have hmul : Usize.mul i 9 = .ok (i * 9) := Usize.mul_ok (by omega)
    have hadd : Usize.add 4 (i * 9) = .ok (4 + i * 9) := Usize.add_ok (by omega)
    rw [parseOptionsChecked, parseOptions, hmul]
    simp only [ok_bind, hadd]
    rw [← List.head?_drop]
    cases body.drop (4 + i * 9) with
    | nil => rfl
    | cons id rest =>
      simp only [List.head?_cons]
      rw [sure_bind, optionValueChecked_eq (by omega)]
      congr 1
      funext value
      exact ih (i + 1) _ (by omega)

theorem parseChecked_eq (body : List UInt8) : parseChecked body = sure (parse body) := by
  rw [parseChecked, parse, sure_bind, readU32Checked_eq (by omega)]
  congr 1
  funext count
  have hcount := count.toNat_lt
  exact parseOptionsChecked_eq body count.toNat 0 _ (by omega)

theorem alike : Alike decodeChecked decode := by
  refine Agree.after Reader.readU32Le fun tokenLength => ?_
  split
  · exact .fail _
  · refine Agree.after (Reader.readExact tokenLength.toNat) fun body => ?_
    rw [parseChecked_eq, checked_sure]
    exact .refl _

end TokenFedAuthInfo

end Tiberius
