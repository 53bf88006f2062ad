import Tiberius.Fields
import Tiberius.TokenBounds

/-!
The length in front of a token's body against what its decoder reads. No decoder
ends in a panic, and one that ends with a token has read the length and as many
bytes behind it as the length says, so the next token starts there.
-/

namespace Tiberius

open Reading Reading.Program Reader

section

variable {α β : Type}

/-- A program that ends with a value or with an error that is returned. -/
abbrev Safe (p : Reader α) : Prop := p.Ends (fun _ => True) Returned

/-- A program that has read so many bytes when it ends with a value. -/
abbrev TakesBytes (count : ℕ) (p : Reader α) : Prop := p.Takes fun _ taken => taken = count

theorem reject_safe (error : Error) : Safe (reject error : Reader α) := ⟨error, rfl⟩

theorem ofResult_safe (result : Except Error α) : Safe (ofResult result) := by
  cases result with
  | ok value => trivial
  | error error => exact reject_safe error

theorem Safe.bind {p : Reader α} {f : α → Reader β} (hfirst : Safe p)
    (hnext : ∀ value, Safe (f value)) :
    Safe (p.bind f) :=
  Ends.bind hfirst fun value _ => hnext value

theorem ofResult_takes (result : Except Error α) : TakesBytes 0 (ofResult result) := by
  cases result with
  | ok value => exact rfl
  | error error => trivial

theorem readExact_takes (count : ℕ) : TakesBytes count (Reader.readExact count) :=
  fun _ _ => Nat.add_zero count

theorem TakesBytes.bind {first more : ℕ} {p : Reader α} {f : α → Reader β}
    (hfirst : TakesBytes first p) (hnext : ∀ value, TakesBytes more (f value)) :
    TakesBytes (first + more) (p.bind f) := by
  refine Takes.bind hfirst fun value count hcount => ?_
  refine (hnext value).mono fun other taken htaken => ?_
  rw [hcount, htaken]

theorem readWindows_takes {cap : ℕ} (hcap : 0 < cap) (fuel remaining : ℕ)
    (hfuel : remaining ≤ fuel) :
    TakesBytes remaining (readWindows cap fuel remaining) := by
  induction fuel generalizing remaining with
  | zero => exact (Nat.le_zero.mp hfuel).symm
  | succ fuel ih =>
    rw [readWindows]
    split
    next hzero => exact hzero.symm
    next hpos =>
      have hrest := ih (remaining - min remaining cap) (by omega)
      have htotal : min remaining cap + (remaining - min remaining cap + 0) = remaining := by omega
      have htakes := (readExact_takes (min remaining cap)).bind fun window =>
        hrest.bind fun rest => show TakesBytes 0 (pure (window ++ rest)) from rfl
      rw [htotal] at htakes
      exact htakes

theorem safe_map {p : Reader α} {f : α → β} (hsafe : Safe p) :
    Safe (p.bind fun value => .ret (f value)) :=
  hsafe.bind fun _ => trivial

theorem takes_map {count : ℕ} {p : Reader α} {f : α → β} (htakes : TakesBytes count p) :
    TakesBytes count (p.bind fun value => .ret (f value)) :=
  htakes.bind fun _ => show TakesBytes 0 (Program.ret _) from rfl

end

section

variable {α : Type}

/-- A decoder of a token: a length of `width` bytes, and a body of as many bytes as
it says. -/
structure Declares (width : ℕ) (p : Reader α) : Prop where
  safe : Safe p
  takes : ∀ (env : Context) (bytes : List UInt8) (value : α) (rest : List UInt8),
    p.run env bytes = .done value rest →
      width + leNat (bytes.take width) ≤ bytes.length ∧
        rest = bytes.drop (width + leNat (bytes.take width))

/-- The body behind a length of two bytes or of four. -/
theorem declares_read {width : ℕ} {next : List UInt8 → Reader α}
    (hsafe : ∀ taken, Safe (next taken))
    (htakes : ∀ taken, taken.length = width → TakesBytes (leNat taken) (next taken)) :
    Declares width (.read width next) where
  safe := fun taken _ => hsafe taken
  takes := by
    intro env bytes value rest hrun
    by_cases hwidth : width ≤ bytes.length
    · rw [run_read_of_le next env hwidth] at hrun
      obtain ⟨count, hcount, hinside, hrest⟩ :=
        (htakes _ (List.length_take_of_le hwidth)).of_run hrun
      rw [List.length_drop] at hinside
      rw [List.drop_drop] at hrest
      rw [← hcount]
      exact ⟨by omega, hrest⟩
    · rw [run_read_of_lt next env (Nat.lt_of_not_le hwidth)] at hrun
      cases hrun

theorem getU16Le_toNat {bytes : List UInt8} (hlength : bytes.length = 2) :
    (getU16Le bytes).toNat = leNat bytes := by
  have hbytes := leNat_lt bytes
  rw [hlength] at hbytes
  exact UInt16.toNat_ofNat_of_lt' hbytes

theorem getU32Le_toNat {bytes : List UInt8} (hlength : bytes.length = 4) :
    (getU32Le bytes).toNat = leNat bytes := by
  have hbytes := leNat_lt bytes
  rw [hlength] at hbytes
  exact UInt32.toNat_ofNat_of_lt' hbytes

theorem declares_u16 {next : UInt16 → Reader α} (hsafe : ∀ length, Safe (next length))
    (htakes : ∀ length, TakesBytes length.toNat (next length)) :
    Declares 2 (readU16Le.bind next) := by
  refine declares_read (fun taken => hsafe _) fun taken hlength => ?_
  rw [← getU16Le_toNat hlength]
  exact htakes (getU16Le taken)

theorem declares_u32 {next : UInt32 → Reader α} (hsafe : ∀ length, Safe (next length))
    (htakes : ∀ length, TakesBytes length.toNat (next length)) :
    Declares 4 (readU32Le.bind next) := by
  refine declares_read (fun taken => hsafe _) fun taken hlength => ?_
  rw [← getU32Le_toNat hlength]
  exact htakes (getU32Le taken)

theorem Declares.map {β : Type} {width : ℕ} {p : Reader α} {f : α → β}
    (hdeclares : Declares width p) :
    Declares width (p.bind fun value => .ret (f value)) where
  safe := safe_map hdeclares.safe
  takes := by
    intro env bytes value rest hrun
    rw [run_bind] at hrun
    cases hfirst : p.run env bytes with
    | done middle left =>
      rw [hfirst] at hrun
      cases hrun
      exact hdeclares.takes env bytes middle _ hfirst
    | failed error left =>
      rw [hfirst] at hrun
      cases hrun
    | short left' left =>
      rw [hfirst] at hrun
      cases hrun

theorem declares_context {β : Type} {width : ℕ} {f : Context → β} {next : β → Reader α}
    (hnext : ∀ value, Declares width (next value)) :
    Declares width ((Reader.context f).bind next) where
  safe := fun env => (hnext (f env)).safe
  takes := fun env => (hnext (f env)).takes env

/-- A body that is read whole and parsed in memory. -/
theorem whole_safe (count : ℕ) (parse : List UInt8 → Except Error α) :
    Safe ((Reader.readExact count).bind fun bytes => ofResult (parse bytes)) :=
  Safe.bind (fun _ _ => trivial) fun _ => ofResult_safe _

theorem whole_takes (count : ℕ) (parse : List UInt8 → Except Error α) :
    TakesBytes count ((Reader.readExact count).bind fun bytes => ofResult (parse bytes)) :=
  (readExact_takes count).bind fun _ => ofResult_takes _

theorem TokenEnvChange.decode_declares : Declares 2 decode :=
  declares_u16 (fun _ => whole_safe _ _) fun _ => whole_takes _ _

/-- The version of the protocol is looked up in front of the length. -/
theorem decodeErrorInfoBody_declares : Declares 2 decodeErrorInfoBody := by
  refine declares_context fun version => ?_
  exact declares_u16 (fun _ => whole_safe _ _) fun _ => whole_takes _ _

theorem TokenTabName.decode_declares : Declares 2 decode := by
  refine declares_u16 (fun length => ?_) fun length => ?_
  · refine Ends.bind (readBytesInto_ends (by decide) length.toNat) fun data _ => ?_
    exact safe_map (ofResult_safe _)
  · have hdata := readWindows_takes (show 0 < maxPrealloc by decide) length.toNat length.toNat
      (Nat.le_refl _)
    exact hdata.bind fun data => takes_map (ofResult_takes _)

theorem TokenOrder.decode_declares : Declares 2 decode := by
  refine declares_u16 (fun length => ?_) fun length => ?_
  · split
    · exact reject_safe _
    · exact safe_map (Ends.times (show Safe readU16Le from fun _ _ => trivial) _)
  · split
    · trivial
    next heven =>
      have hindexes := Takes.times (show TakesBytes 2 readU16Le from fun _ _ => rfl)
        (length.toNat / 2)
      have htotal : length.toNat / 2 * 2 = length.toNat := by
        have hmod : length.toNat % 2 = 0 := by
          simpa using congrArg UInt16.toNat (not_not.mp heven)
        omega
      rw [htotal] at hindexes
      exact takes_map hindexes

/-- An acknowledgement that is too short for its fields is read and refused. -/
theorem TokenLoginAck.decode_declares : Declares 2 decode := by
  refine declares_u16 (fun length => ?_) fun length => ?_
  · split
    · exact Safe.bind (fun _ _ => trivial) fun _ => reject_safe _
    · refine Safe.bind (fun _ _ => trivial) fun interface => ?_
      refine Safe.bind (fun _ _ => trivial) fun version => ?_
      cases FeatureLevel.tryFrom version with
      | none => exact reject_safe _
      | some tdsVersion => exact whole_safe _ _
  · split
    · exact Takes.bind (readExact_takes _) fun _ _ _ => trivial
    next hshort =>
      have hlong : 5 ≤ length.toNat := Nat.le_of_not_lt hshort
      have htotal : 1 + (4 + (length.toNat - 5)) = length.toNat := by omega
      rw [← htotal]
      refine TakesBytes.bind (fun _ _ => rfl) fun interface => ?_
      refine TakesBytes.bind (fun _ _ => rfl) fun version => ?_
      cases FeatureLevel.tryFrom version with
      | none => trivial
      | some tdsVersion =>
        rw [htotal]
        exact whole_takes _ _

theorem TokenSessionState.decode_declares : Declares 4 decode := by
  refine declares_u32 (fun length => ?_) fun length => ?_
  · split
    · exact reject_safe _
    · refine Safe.bind (fun _ _ => trivial) fun bytes => ?_
      split
      · exact reject_safe _
      · exact ofResult_safe _
  · split
    · trivial
    · change TakesBytes (length.toNat + 0) _
      refine (readExact_takes length.toNat).bind fun bytes => ?_
      split
      · trivial
      · exact ofResult_takes _

theorem TokenFedAuthInfo.decode_declares : Declares 4 decode := by
  refine declares_u32 (fun length => ?_) fun length => ?_
  · split
    · exact reject_safe _
    · exact whole_safe _ _
  · split
    · trivial
    · exact whole_takes _ _

theorem ColInfo.decodeName_safe (status : UInt8) (room : ℕ) : Safe (decodeName status room) := by
  unfold decodeName
  split
  · trivial
  split
  · exact reject_safe _
  · refine Safe.bind (fun _ _ => trivial) fun charLen => ?_
    split
    · exact reject_safe _
    · have hunits := Ends.times (show Safe readU16Le from fun _ _ => trivial) charLen.toNat
      refine Safe.bind hunits fun units => ?_
      cases fromUtf16 units with
      | none => exact reject_safe _
      | some text => trivial

/-- The name of an entry counts the bytes it has taken, and they are in the room
there is. -/
theorem ColInfo.decodeName_takes (status : UInt8) (room : ℕ) :
    (decodeName status room).Takes fun name taken => taken = name.2 ∧ taken ≤ room := by
  unfold decodeName
  split
  · exact ⟨rfl, Nat.zero_le _⟩
  split
  · trivial
  next hroom =>
    refine Takes.bind (show TakesBytes 1 readU8 from fun _ _ => rfl) ?_
    rintro charLen _ rfl
    split
    · trivial
    next hname =>
      have hunits := Takes.times (show TakesBytes 2 readU16Le from fun _ _ => rfl) charLen.toNat
      refine Takes.bind hunits ?_
      rintro units _ rfl
      cases fromUtf16 units with
      | none => trivial
      | some text => exact ⟨rfl, by omega⟩

theorem TokenColInfo.decodeEntries_safe (fuel room : ℕ) : Safe (decodeEntries fuel room) := by
  induction fuel generalizing room with
  | zero => trivial
  | succ fuel ih =>
    rw [decodeEntries]
    split
    · trivial
    split
    · exact reject_safe _
    · refine Safe.bind (fun _ _ => trivial) fun colNum => ?_
      refine Safe.bind (fun _ _ => trivial) fun tableNum => ?_
      refine Safe.bind (fun _ _ => trivial) fun status => ?_
      refine (ColInfo.decodeName_safe _ _).bind fun name => ?_
      exact safe_map (ih _)

/-- The entries take all the room of the token. -/
theorem TokenColInfo.decodeEntries_takes (fuel room : ℕ) (hfuel : room ≤ fuel) :
    TakesBytes room (decodeEntries fuel room) := by
  induction fuel generalizing room with
  | zero => exact (Nat.le_zero.mp hfuel).symm
  | succ fuel ih =>
    rw [decodeEntries]
    split
    next hzero => exact hzero.symm
    split
    · trivial
    next hroom =>
      have hbyte : TakesBytes 1 readU8 := fun _ _ => rfl
      refine Takes.bind hbyte ?_
      rintro colNum _ rfl
      refine Takes.bind hbyte ?_
      rintro tableNum _ rfl
      refine Takes.bind hbyte ?_
      rintro status _ rfl
      refine Takes.bind (ColInfo.decodeName_takes status (room - 3)) ?_
      rintro name _ ⟨rfl, hname⟩
      refine Takes.bind (ih (room - 3 - name.2) (by omega)) ?_
      rintro rest _ rfl
      change 1 + (1 + (1 + (name.2 + (room - 3 - name.2 + 0)))) = room
      omega

theorem TokenColInfo.decode_declares : Declares 2 decode :=
  declares_u16 (fun _ => safe_map (decodeEntries_safe _ _)) fun _ =>
    takes_map (decodeEntries_takes _ _ (Nat.le_refl _))

end

namespace TokenType

variable [EncodingRs]

/-- The checks change nothing of what a body is decoded to. -/
theorem decodeBody_alike (ty : TokenType) : Alike ty.decodeBodyChecked ty.decodeBody := by
  have hmap : ∀ {α : Type} {checked plain : Reader α} (wrap : α → ReceivedToken),
      Alike checked plain →
        Alike (checked.bind fun value => .ret (wrap value))
          (plain.bind fun value => .ret (wrap value)) := by
    intro α checked plain wrap halike
    refine halike.bind ?_
    rintro value _ rfl
    exact .ret rfl
  cases ty with
  | envChange => exact hmap _ TokenEnvChange.alike
  | tabName => exact hmap _ TokenTabName.alike
  | colInfo => exact hmap _ TokenColInfo.alike
  | loginAck => exact hmap _ TokenLoginAck.alike
  | sessionState => exact hmap _ TokenSessionState.alike
  | fedAuthInfo => exact hmap _ TokenFedAuthInfo.alike
  | _ => exact .refl _

theorem decodeBody_declares {ty : TokenType} {width : ℕ} (hty : ty.lengthBytes = some width) :
    Declares width ty.decodeBody := by
  cases ty with
  | envChange =>
    cases hty
    exact TokenEnvChange.decode_declares.map
  | error =>
    cases hty
    exact decodeErrorInfoBody_declares.map
  | info =>
    cases hty
    exact decodeErrorInfoBody_declares.map.map
  | tabName =>
    cases hty
    exact TokenTabName.decode_declares.map
  | colInfo =>
    cases hty
    exact TokenColInfo.decode_declares.map
  | order =>
    cases hty
    exact TokenOrder.decode_declares.map
  | loginAck =>
    cases hty
    exact TokenLoginAck.decode_declares.map
  | sessionState =>
    cases hty
    exact TokenSessionState.decode_declares.map
  | fedAuthInfo =>
    cases hty
    exact TokenFedAuthInfo.decode_declares.map
  | _ => cases hty

/-- Decoding the body of a token that declares its length does not panic on any
bytes, and a token that it returns has taken the length and the bytes behind it
that the length says. -/
theorem decode_declared_length {ty : TokenType} {width : ℕ} (hty : ty.lengthBytes = some width)
    (context : Context) (bytes : List UInt8) :
    (∀ rest, ty.decodeBodyChecked.run context bytes ≠ .failed .panic rest) ∧
    ∀ token rest, ty.decodeBodyChecked.run context bytes = .done token rest →
      width + leNat (bytes.take width) ≤ bytes.length ∧
        rest = bytes.drop (width + leNat (bytes.take width)) := by
  have hdeclares := decodeBody_declares hty
  have hagree := (decodeBody_alike ty).run context bytes
  constructor
  · intro rest hrun
    obtain ⟨error, herror⟩ := hdeclares.safe.of_failed (hagree.2 _ _ hrun)
    cases herror
  · intro token rest hrun
    obtain ⟨other, -, hother⟩ := hagree.1 token rest hrun
    exact hdeclares.takes context bytes other rest hother

end TokenType

/-- A COLINFO of one entry with a name of one character, in front of a DONE. -/
theorem TokenType.decode_declared_length_named :
    (∀ rest, (@decodeBodyChecked .ascii colInfo).run .new
      [6, 0, 1, 1, 0x20, 1, 0x41, 0, 0xFD] ≠ .failed .panic rest) ∧
    (∀ token rest, (@decodeBodyChecked .ascii colInfo).run .new
        [6, 0, 1, 1, 0x20, 1, 0x41, 0, 0xFD] = .done token rest →
      2 + leNat [6, 0] ≤ 9 ∧ rest = [0xFD]) ∧
    (@decodeBodyChecked .ascii colInfo).run .new [6, 0, 1, 1, 0x20, 1, 0x41, 0, 0xFD] =
      .done (.colInfo
          { columns := [{ colNum := 1, tableNum := 1, status := 0x20, colName := some "A" }] })
        [0xFD] := by
  have hlength :=
    @decode_declared_length .ascii colInfo 2 rfl .new [6, 0, 1, 1, 0x20, 1, 0x41, 0, 0xFD]
  exact ⟨hlength.1, hlength.2, rfl⟩

end Tiberius
