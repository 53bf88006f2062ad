import Tiberius.LoginFields

/-!
When the fields of a login message are found again. Offsets and lengths lose
their high bits in the table. The regions that it delimits are those of the
fields, and apart from one another, exactly if no field that is not empty starts
or extends beyond 16 bits; beyond that, the length in front bounds the message.
-/

namespace Tiberius

open Reading Reader Program Writing Login7

theorem deobfuscate_obfuscate (byte : UInt8) : deobfuscate (obfuscate byte) = byte := by
  have hall : ∀ code : Fin 256, deobfuscate (obfuscate (UInt8.ofNat code)) = UInt8.ofNat code := by
    decide +kernel
  have hbyte := hall ⟨byte.toNat, byte.toNat_lt⟩
  rwa [UInt8.ofNat_toNat] at hbyte

theorem deobfuscate_comp : deobfuscate ∘ obfuscate = id := funext deobfuscate_obfuscate

namespace LoginMessage

/-- The sizes of the pieces of the front: the fixed part, the entries with the
client id among them, and the last four bytes. -/
def frontSizes : List ℕ :=
  [4, 4, 4, 4, 4, 4, 1, 1, 1, 1, 4, 4] ++ List.replicate 18 2 ++ [6] ++ List.replicate 6 2 ++ [4]

/-- The piece of the front that the entry of a field begins with. -/
def entryIndex (i : ℕ) : ℕ := if i < 9 then 12 + 2 * i else 11 + 2 * i

theorem frontSizes_entry {i : ℕ} (hi : i < 13) (hid : i ≠ 9) :
    (placed 0 frontSizes)[entryIndex i]? = some { start := entryPos i, size := 2 } ∧
      (placed 0 frontSizes)[entryIndex i + 1]? = some { start := entryPos i + 2, size := 2 } := by
  have hall : ∀ i : Fin 13, i.val ≠ 9 →
      (placed 0 frontSizes)[entryIndex i]? = some { start := entryPos i, size := 2 } ∧
        (placed 0 frontSizes)[entryIndex i + 1]? = some { start := entryPos i + 2, size := 2 } := by
    decide
  exact hall ⟨i, hi⟩ hid

section Table

variable (msg : LoginMessage)

theorem frontPieces_sizes : (msg.frontPieces msg.encodedLen).map List.length = frontSizes := rfl

theorem u16At_layout {index pos value : ℕ}
    (hregion : (placed 0 frontSizes)[index]? = some { start := pos, size := 2 })
    (hpiece : (msg.frontPieces msg.encodedLen)[index]? = some (toLe 2 value))
    (hvalue : value < 2 ^ 16) : u16At pos msg.layout = value := by
  have hslice : Region.slice { start := pos, size := 2 } msg.layout = toLe 2 value := by
    rw [← msg.frontPieces_sizes] at hregion
    rw [layout, List.append_assoc, ← List.nil_append (msg.frontPieces msg.encodedLen).flatten]
    exact slice_placed hregion hpiece
  rw [u16At, show (msg.layout.drop pos).take 2 = toLe 2 value from hslice, leNat_toLe]
  exact Nat.mod_eq_of_lt hvalue

theorem getElem?_of_pair {β : Type} {pieces : List β} {index : ℕ} {first second : β}
    (hpair : (pieces.drop index).take 2 = [first, second]) :
    pieces[index]? = some first ∧ pieces[index + 1]? = some second := by
  have hfirst := congrArg (·[0]?) hpair
  have hsecond := congrArg (·[1]?) hpair
  simp only [List.getElem?_take_of_lt Nat.two_pos, List.getElem?_take_of_lt Nat.one_lt_two,
    List.getElem?_drop] at hfirst hsecond
  exact ⟨hfirst, hsecond⟩

theorem textRegion_layout {i : ℕ} {region : Region} (hi : i < 13) (hid : i ≠ 9)
    (hentry : ((msg.frontPieces msg.encodedLen).drop (entryIndex i)).take 2 = textEntry region) :
    textRegion i msg.layout =
      { start := region.start % 2 ^ 16, size := 2 * (region.size % 2 ^ 16 / 2) } := by
  obtain ⟨hoffset, hlength⟩ := frontSizes_entry hi hid
  obtain ⟨hstart, hsize⟩ := getElem?_of_pair hentry
  rw [textRegion, msg.u16At_layout hoffset hstart (UInt16.toNat_lt _),
    msg.u16At_layout hlength hsize (UInt16.toNat_lt _), UInt16.toNat_div, UInt16.toNat_ofNat',
    UInt16.toNat_ofNat']
  rfl

theorem bytesRegion_layout {i : ℕ} {region : Region} (hi : i < 13) (hid : i ≠ 9)
    (hentry : ((msg.frontPieces msg.encodedLen).drop (entryIndex i)).take 2 = bytesEntry region) :
    bytesRegion i msg.layout =
      { start := region.start % 2 ^ 16, size := region.size % 2 ^ 16 } := by
  obtain ⟨hoffset, hlength⟩ := frontSizes_entry hi hid
  obtain ⟨hstart, hsize⟩ := getElem?_of_pair hentry
  rw [bytesRegion, msg.u16At_layout hoffset hstart (UInt16.toNat_lt _),
    msg.u16At_layout hlength hsize (UInt16.toNat_lt _), UInt16.toNat_ofNat', UInt16.toNat_ofNat']

end Table

section Read

variable (msg : LoginMessage) {index i : ℕ} {region stored : Region} {piece : List UInt8}
  {text : String}

theorem slice_layout (hregion : (placed 94 msg.sizes)[index]? = some region)
    (hpiece : msg.pieces[index]? = some piece) : region.slice msg.layout = piece := by
  rw [← pieces_length, ← msg.frontPieces_length msg.encodedLen] at hregion
  exact slice_placed hregion hpiece

theorem region_le_layout (hregion : region ∈ placed 94 msg.sizes) :
    region.start + region.size ≤ msg.layout.length := by
  have hend := (placed_bounds region hregion).2
  rw [← pieces_length, placedEnd_lengths, ← msg.frontPieces_length msg.encodedLen] at hend
  rw [layout, List.length_append, List.length_append]
  omega

/-- A field whose entry has not lost anything is read back. -/
theorem readRegion_layout (hregion : (placed 94 msg.sizes)[index]? = some region)
    (hpiece : msg.pieces[index]? = some piece) (hstart : stored.start = region.start % 2 ^ 16)
    (hsize : stored.size = region.size) (hfits : region.size ≠ 0 → region.start < 2 ^ 16) :
    readRegion stored msg.layout = some piece := by
  have hslice := msg.slice_layout hregion hpiece
  have hend := msg.region_le_layout (List.mem_of_getElem? hregion)
  have hmod := Nat.mod_le region.start (2 ^ 16)
  rw [readRegion, if_pos (by omega)]
  by_cases hempty : region.size = 0
  · rw [← hslice, Region.slice, Region.slice, hsize, hempty, List.take_zero, List.take_zero]
  · have hsame : stored.start = region.start := hstart.trans (Nat.mod_eq_of_lt (hfits hempty))
    rw [← hslice, Region.slice, Region.slice, hsame, hsize]

theorem length_of_readRegion {bytes : List UInt8} {buf : List UInt8}
    (hread : readRegion region buf = some bytes) : bytes.length = region.size := by
  rw [readRegion] at hread
  split_ifs at hread with hin
  obtain rfl := Option.some.inj hread
  rw [Region.slice, List.length_take, List.length_drop]
  omega

end Read

/-- A field of text: its entry, its place and its bytes. -/
structure TextField (msg : LoginMessage) (i index : ℕ) (text : String) (bytes : List UInt8) :
    Prop where
  entry : textRegion i msg.layout =
    { start := (msg.region index).start % 2 ^ 16
      size := 2 * ((msg.region index).size % 2 ^ 16 / 2) }
  region : (placed 94 msg.sizes)[index]? = some (msg.region index)
  size : (msg.region index).size = utf16Bytes text
  piece : msg.pieces[index]? = some bytes

namespace TextField

variable {msg : LoginMessage} {i index : ℕ} {text : String} {bytes : List UInt8}

theorem size_eq (hfield : msg.TextField i index text bytes)
    (hsize : (msg.region index).size < 2 ^ 16) :
    (textRegion i msg.layout).size = (msg.region index).size := by
  have heven : (msg.region index).size = (encodeUtf16 text.toList).length * 2 := hfield.size
  rw [hfield.entry]
  simp only
  omega

theorem readRegion_eq (hfield : msg.TextField i index text bytes)
    (hfits : ∀ region ∈ placed 94 msg.sizes, region.size ≠ 0 →
      region.start < 2 ^ 16 ∧ region.size < 2 ^ 16) :
    readRegion (textRegion i msg.layout) msg.layout = some bytes := by
  have hplace := List.mem_of_getElem? hfield.region
  refine msg.readRegion_layout hfield.region hfield.piece (by rw [hfield.entry]) ?_
    fun hne => (hfits _ hplace hne).1
  apply hfield.size_eq
  by_cases hempty : (msg.region index).size = 0
  · omega
  · exact (hfits _ hplace hempty).2

/-- A text that is read back has kept its length. -/
theorem size_lt (hfield : msg.TextField i index text bytes) {read : List UInt8}
    (hread : readRegion (textRegion i msg.layout) msg.layout = some read) {f : UInt8 → UInt8}
    (htext : fromUtf16 (unitsLe (read.map f)) = some text) :
    (msg.region index).size < 2 ^ 16 := by
  have hlength := length_of_readRegion hread
  have hunits := congrArg List.length (fromUtf16_eq_some_iff.mp htext)
  rw [unitsLe_length, List.length_map, hlength, hfield.entry] at hunits
  have hsize := hfield.size
  rw [utf16Bytes] at hsize
  simp only at hunits
  omega

theorem entry_eq_wrap (hfield : msg.TextField i index text bytes)
    (hsize : ∀ region ∈ placed 94 msg.sizes, region.size < 2 ^ 16) :
    textRegion i msg.layout = (msg.region index).wrap (2 ^ 16) := by
  have hkept := hfield.size_eq (hsize _ (List.mem_of_getElem? hfield.region))
  rw [hfield.entry] at hkept ⊢
  simp only at hkept
  rw [hkept]
  rfl

theorem readText_eq (hfield : msg.TextField i index text (putUnits (encodeUtf16 text.toList)))
    (hfits : ∀ region ∈ placed 94 msg.sizes, region.size ≠ 0 →
      region.start < 2 ^ 16 ∧ region.size < 2 ^ 16) :
    readText i msg.layout = some text := by
  rw [readText, hfield.readRegion_eq hfits, Option.bind_some, unitsLe_putUnits,
    fromUtf16_eq_some_iff]

theorem size_lt_of_readText (hfield : msg.TextField i index text bytes)
    (hread : readText i msg.layout = some text) : (msg.region index).size < 2 ^ 16 := by
  rw [readText, Option.bind_eq_some_iff] at hread
  obtain ⟨read, hregion, htext⟩ := hread
  rw [← List.map_id read] at htext
  exact hfield.size_lt hregion htext

theorem readPassword_eq
    (hfield : msg.TextField i index text ((putUnits (encodeUtf16 text.toList)).map obfuscate))
    (hfits : ∀ region ∈ placed 94 msg.sizes, region.size ≠ 0 →
      region.start < 2 ^ 16 ∧ region.size < 2 ^ 16) :
    readPassword i msg.layout = some text := by
  rw [readPassword, hfield.readRegion_eq hfits, Option.bind_some, List.map_map, deobfuscate_comp,
    List.map_id, unitsLe_putUnits, fromUtf16_eq_some_iff]

theorem size_lt_of_readPassword (hfield : msg.TextField i index text bytes)
    (hread : readPassword i msg.layout = some text) : (msg.region index).size < 2 ^ 16 := by
  rw [readPassword, Option.bind_eq_some_iff] at hread
  obtain ⟨read, hregion, htext⟩ := hread
  exact hfield.size_lt hregion htext

end TextField

section Fields

variable (msg : LoginMessage)

theorem hostname_field : msg.TextField 0 0 msg.hostname
    (putUnits (encodeUtf16 msg.hostname.toList)) :=
  ⟨msg.textRegion_layout (by decide) (by decide) rfl, msg.region_getElem? (by decide), rfl, rfl⟩

theorem username_field : msg.TextField 1 1 msg.username
    (putUnits (encodeUtf16 msg.username.toList)) :=
  ⟨msg.textRegion_layout (by decide) (by decide) rfl, msg.region_getElem? (by decide), rfl, rfl⟩

theorem password_field : msg.TextField 2 2 msg.password
    ((putUnits (encodeUtf16 msg.password.toList)).map obfuscate) :=
  ⟨msg.textRegion_layout (by decide) (by decide) rfl, msg.region_getElem? (by decide), rfl, rfl⟩

theorem appName_field : msg.TextField 3 3 msg.appName
    (putUnits (encodeUtf16 msg.appName.toList)) :=
  ⟨msg.textRegion_layout (by decide) (by decide) rfl, msg.region_getElem? (by decide), rfl, rfl⟩

theorem serverName_field : msg.TextField 4 4 msg.serverName
    (putUnits (encodeUtf16 msg.serverName.toList)) :=
  ⟨msg.textRegion_layout (by decide) (by decide) rfl, msg.region_getElem? (by decide), rfl, rfl⟩

theorem cltIntName_field : msg.TextField 6 5 "" (putUnits (encodeUtf16 "".toList)) :=
  ⟨msg.textRegion_layout (by decide) (by decide) rfl, msg.region_getElem? (by decide), rfl, rfl⟩

theorem language_field : msg.TextField 7 6 "" (putUnits (encodeUtf16 "".toList)) :=
  ⟨msg.textRegion_layout (by decide) (by decide) rfl, msg.region_getElem? (by decide), rfl, rfl⟩

theorem dbName_field : msg.TextField 8 7 msg.dbName
    (putUnits (encodeUtf16 msg.dbName.toList)) :=
  ⟨msg.textRegion_layout (by decide) (by decide) rfl, msg.region_getElem? (by decide), rfl, rfl⟩

theorem sspi_entry : bytesRegion 10 msg.layout =
    { start := (msg.region 8).start % 2 ^ 16, size := (msg.region 8).size % 2 ^ 16 } :=
  msg.bytesRegion_layout (by decide) (by decide) rfl

theorem atchDbFile_field : msg.TextField 11 9 "" (putUnits (encodeUtf16 "".toList)) :=
  ⟨msg.textRegion_layout (by decide) (by decide) rfl, msg.region_getElem? (by decide), rfl, rfl⟩

theorem changePassword_field : msg.TextField 12 10 "" (putUnits (encodeUtf16 "".toList)) :=
  ⟨msg.textRegion_layout (by decide) (by decide) rfl, msg.region_getElem? (by decide), rfl, rfl⟩

end Fields

end LoginMessage

theorem ofFn_toList (nonce : Vector UInt8 32) :
    (Vector.ofFn fun i : Fin 32 => nonce.toList.getD i 0) = nonce := by
  apply Vector.ext
  intro i hi
  have hlength : i < nonce.toList.length := by
    rw [Vector.length_toList]
    exact hi
  rw [Vector.getElem_ofFn, List.getD_eq_getElem?_getD, List.getElem?_eq_getElem hlength,
    Option.getD_some, Vector.getElem_toList]

theorem readNonce_reads {env : Context} (nonce : Option (Vector UInt8 32)) :
    (readNonce ((nonce.map Vector.toList).getD []).length).Reads env
      ((nonce.map Vector.toList).getD []) nonce := by
  cases nonce with
  | none => exact ret_reads _
  | some nonce =>
    have hlength : nonce.toList.length = 32 := Vector.length_toList
    simp only [Option.map_some, Option.getD_some, hlength, readNonce, if_true]
    refine Reads.bind_last (readExact_reads.mpr ⟨hlength, rfl⟩) (reads_ret.mpr ⟨rfl, ?_⟩)
    rw [ofFn_toList]

/-- The feature data are read back as long as their length fits its field. -/
theorem FedAuthExt.feature_reads (ext : FedAuthExt) {env : Context}
    (hlength : ext.feature.length < 2 ^ 32) : readFedAuth.Reads env ext.feature ext := by
  have hoptions : ext.options >>> 1 = 0x01 ∧ (ext.options &&& 1 == 1) = ext.fedAuthEcho := by
    rw [options]
    cases ext.fedAuthEcho <;> decide
  simp only [feature, List.length_append, List.length_cons, List.length_nil, toLe_length,
    putUnits_length] at hlength
  have htoken : (UInt32.ofNat (putUnits (encodeUtf16 ext.fedAuthToken.toList)).length).toNat =
      2 * (encodeUtf16 ext.fedAuthToken.toList).length := by
    rw [UInt32.toNat_ofNat_of_lt' (by rw [putUnits_length]; change _ < 2 ^ 32; omega), putUnits_length]
  simp only [readFedAuth, bind_eq, pure_eq, feature, List.append_assoc]
  refine Reads.bind (readU8_put _) ?_
  rw [if_pos rfl]
  refine Reads.bind (readU32Le_reads.mpr rfl) ?_
  refine Reads.bind (readU8_put _) ?_
  rw [if_pos hoptions.1]
  refine Reads.bind (readU32Le_reads.mpr rfl) ?_
  rw [htoken, Nat.mul_div_cancel_left _ (by decide)]
  refine Reads.bind (readVarchar_reads.mpr ⟨rfl, rfl⟩) ?_
  have hremaining : (UInt32.ofNat (1 + 4 + (putUnits (encodeUtf16 ext.fedAuthToken.toList)).length +
        ((ext.nonce.map Vector.toList).getD []).length)).toNat -
          (5 + 2 * (encodeUtf16 ext.fedAuthToken.toList).length) =
      ((ext.nonce.map Vector.toList).getD []).length := by
    rw [UInt32.toNat_ofNat_of_lt' (by rw [putUnits_length]; change _ < 2 ^ 32; omega),
      putUnits_length]
    omega
  rw [hremaining]
  refine Reads.bind (readNonce_reads ext.nonce) ?_
  refine Reads.bind_last (readU8_put _) ?_
  rw [if_pos rfl, hoptions.2]
  exact ret_reads _

/-- The length that the feature data give for themselves. -/
theorem FedAuthExt.feature_size (ext : FedAuthExt) (hlength : ext.feature.length < 2 ^ 32) :
    6 + leNat ((ext.feature.drop 1).take 4) = ext.feature.length := by
  have hsize : ext.feature.length = 6 + (1 + 4 +
      (putUnits (encodeUtf16 ext.fedAuthToken.toList)).length +
        ((ext.nonce.map Vector.toList).getD []).length) := by
    simp only [feature, List.length_append, List.length_cons, List.length_nil, toLe_length]
    omega
  have hbytes : (ext.feature.drop 1).take 4 = toLe 4 (UInt32.ofNat (1 + 4 +
      (putUnits (encodeUtf16 ext.fedAuthToken.toList)).length +
        ((ext.nonce.map Vector.toList).getD []).length)).toNat := rfl
  rw [hsize] at hlength ⊢
  rw [hbytes, UInt32.toNat_ofNat_of_lt' (by change _ < 2 ^ 32; omega), leNat_toLe,
    Nat.mod_eq_of_lt (by omega)]

namespace LoginMessage

section Extension

variable (msg : LoginMessage)

theorem extension_entry_none (hext : msg.fedAuthExt = none) : bytesRegion 5 msg.layout =
    { start := (msg.region 5).start % 2 ^ 16, size := 0 } := by
  refine @bytesRegion_layout msg 5 { start := (msg.region 5).start, size := 0 } (by decide)
    (by decide) ?_
  simp only [frontPieces, extensionEntry, hext]
  rfl

theorem extension_entry_some {ext : FedAuthExt} (hext : msg.fedAuthExt = some ext) :
    bytesRegion 5 msg.layout = (msg.region 11).wrap (2 ^ 16) := by
  have hsize : (msg.region 11).size = 4 := by
    rw [pointer_size, hext]
    rfl
  have hentry := @bytesRegion_layout msg 5 (msg.region 11) (by decide) (by decide) (by
    simp only [frontPieces, extensionEntry, hext]
    rfl)
  rw [hsize] at hentry
  rw [hentry, Region.wrap, hsize]
  rfl

theorem readExtension_none (hext : msg.fedAuthExt = none) :
    readExtension msg.layout = some none ∧
      featureRegion msg.layout = { start := 0, size := 0 } := by
  have hentry := msg.extension_entry_none hext
  have hin := msg.region_le_layout (List.mem_of_getElem? msg.cltIntName_field.region)
  have hmod := Nat.mod_le (msg.region 5).start (2 ^ 16)
  have hpointer : extensionPointer msg.layout = some none := by
    rw [extensionPointer, readBytes, hentry, readRegion, if_pos (by simp only; omega)]
    rfl
  rw [readExtension, featureRegion, hpointer]
  exact ⟨rfl, rfl⟩

/-- The feature data stand behind the pointer. -/
theorem drop_layout {ext : FedAuthExt} (hext : msg.fedAuthExt = some ext) :
    msg.layout.drop ((msg.region 11).start + 4) = ext.feature := by
  have hlength : (msg.region 11).start + 4 =
      ((msg.frontPieces msg.encodedLen).flatten ++ msg.pieces.flatten).length := by
    rw [pointer_start, List.length_append, frontPieces_length, pieces, List.flatten_append,
      List.length_append, List.flatten_singleton, pointerPiece_length hext, Nat.add_assoc]
  rw [layout, hlength, List.drop_left, hext]
  rfl

theorem readExtension_some {ext : FedAuthExt} (hext : msg.fedAuthExt = some ext)
    (hstart : (msg.region 11).start < 2 ^ 16) (hlength : msg.encodedLen < 2 ^ 32) :
    readExtension msg.layout = some (some ext) ∧
      featureRegion msg.layout =
        { start := (msg.region 11).start + 4, size := ext.feature.length } := by
  have hentry := msg.extension_entry_some hext
  have hpiece : msg.pieces[11]? =
      some (toLe 4 (UInt32.ofNat ((msg.region 11).start + 4)).toNat) := by
    have hpointer : msg.pointerPiece =
        toLe 4 (UInt32.ofNat ((msg.region 11).start + 4)).toNat := by
      rw [pointerPiece, hext]
      rfl
    rw [← hpointer]
    rfl
  have hread : readBytes 5 msg.layout =
      some (toLe 4 (UInt32.ofNat ((msg.region 11).start + 4)).toNat) :=
    msg.readRegion_layout (msg.region_getElem? (by decide)) hpiece
      (by rw [hentry]; rfl) (by rw [hentry]; rfl) fun _ => hstart
  have hpointer : extensionPointer msg.layout = some (some ((msg.region 11).start + 4)) := by
    have hvalue : (UInt32.ofNat ((msg.region 11).start + 4)).toNat = (msg.region 11).start + 4 :=
      UInt32.toNat_ofNat_of_lt' (by change _ < 2 ^ 32; omega)
    rw [extensionPointer, hread, Option.map_some, if_pos (toLe_length _ _), hvalue, leNat_toLe,
      Nat.mod_eq_of_lt (by omega)]
  have hfeature := msg.drop_layout hext
  have hshort : ext.feature.length < 2 ^ 32 := by
    have hdrop := congrArg List.length hfeature
    rw [List.length_drop, layout_length] at hdrop
    omega
  refine ⟨?_, ?_⟩
  · have hrun : readFedAuth.run .new (msg.layout.drop ((msg.region 11).start + 4)) =
        .done ext [] := by
      rw [hfeature]
      exact ext.feature_reads hshort
    rw [readExtension, hpointer]
    simp only [hrun]
  · rw [featureRegion, hpointer]
    simp only
    rw [← List.drop_drop, hfeature, ext.feature_size hshort]

end Extension

/-- No field that is not empty starts or extends beyond 16 bits, and the message not
beyond 32. -/
def Fits (msg : LoginMessage) : Prop :=
  (∀ region ∈ placed 94 msg.sizes, region.size ≠ 0 →
    region.start < 2 ^ 16 ∧ region.size < 2 ^ 16) ∧ msg.encodedLen < 2 ^ 32

section Delimited

variable {msg : LoginMessage}

theorem placed_eq (msg : LoginMessage) : placed 94 msg.sizes =
    [msg.region 0, msg.region 1, msg.region 2, msg.region 3, msg.region 4, msg.region 5,
      msg.region 6, msg.region 7, msg.region 8, msg.region 9, msg.region 10, msg.region 11] := rfl

/-- The regions of the fields, with the one of the pointer apart. -/
theorem wrapped_eq (msg : LoginMessage) : (placed 94 msg.sizes).map (Region.wrap (2 ^ 16)) =
    ((placed 94 msg.sizes).take 11).map (Region.wrap (2 ^ 16)) ++
      [(msg.region 11).wrap (2 ^ 16)] := rfl

/-- The length in front, of which 32 bits are kept. -/
theorem leNat_take (msg : LoginMessage) :
    leNat (msg.layout.take 4) = msg.encodedLen % 2 ^ 32 := by
  have htake : msg.layout.take 4 = toLe 4 (UInt32.ofNat msg.encodedLen).toNat := by
    rw [layout, frontPieces_flatten, List.append_assoc, List.append_assoc]
    exact List.take_left' (toLe_length _ _)
  rw [htake, leNat_toLe, UInt32.toNat_ofNat']
  omega

/-- The lengths of the fields that are read back. -/
theorem Delimited.size_lt (hdelimited : msg.Delimited msg.layout) :
    ∀ region ∈ placed 94 msg.sizes, region.size < 2 ^ 16 := by
  have hsspi : (msg.region 8).size < 2 ^ 16 := by
    have hlength := length_of_readRegion hdelimited.sspi
    rw [sspi_entry] at hlength
    have hsize : (msg.region 8).size = (msg.integratedSecurity.getD []).length := rfl
    simp only at hlength
    omega
  have hpointer : (msg.region 11).size < 2 ^ 16 := by
    rw [pointer_size]
    split_ifs <;> decide
  intro region hregion
  rw [placed_eq] at hregion
  simp only [List.mem_cons, List.not_mem_nil, or_false] at hregion
  rcases hregion with rfl | rfl | rfl | rfl | rfl | rfl | rfl | rfl | rfl | rfl | rfl | rfl
  · exact msg.hostname_field.size_lt_of_readText hdelimited.hostname
  · exact msg.username_field.size_lt_of_readText hdelimited.username
  · exact msg.password_field.size_lt_of_readPassword hdelimited.password
  · exact msg.appName_field.size_lt_of_readText hdelimited.appName
  · exact msg.serverName_field.size_lt_of_readText hdelimited.serverName
  · exact msg.cltIntName_field.size_lt_of_readText hdelimited.cltIntName
  · exact msg.language_field.size_lt_of_readText hdelimited.language
  · exact msg.dbName_field.size_lt_of_readText hdelimited.dbName
  · exact hsspi
  · exact msg.atchDbFile_field.size_lt_of_readText hdelimited.atchDbFile
  · exact msg.changePassword_field.size_lt_of_readText hdelimited.changePassword
  · exact hpointer

/-- The regions of the table, once the lengths are kept. -/
theorem regions_layout (hsize : ∀ region ∈ placed 94 msg.sizes, region.size < 2 ^ 16) :
    regions msg.layout = { start := 0, size := 94 } ::
      ((placed 94 msg.sizes).take 11).map (Region.wrap (2 ^ 16)) ++
        [bytesRegion 5 msg.layout, featureRegion msg.layout] := by
  have hsspi : bytesRegion 10 msg.layout = (msg.region 8).wrap (2 ^ 16) := by
    have hkept : (msg.region 8).size < 2 ^ 16 :=
      hsize _ (List.mem_of_getElem? (msg.region_getElem? (by decide)))
    rw [sspi_entry, Nat.mod_eq_of_lt hkept]
    rfl
  rw [regions, msg.hostname_field.entry_eq_wrap hsize, msg.username_field.entry_eq_wrap hsize,
    msg.password_field.entry_eq_wrap hsize, msg.appName_field.entry_eq_wrap hsize,
    msg.serverName_field.entry_eq_wrap hsize, msg.cltIntName_field.entry_eq_wrap hsize,
    msg.language_field.entry_eq_wrap hsize, msg.dbName_field.entry_eq_wrap hsize, hsspi,
    msg.atchDbFile_field.entry_eq_wrap hsize, msg.changePassword_field.entry_eq_wrap hsize]
  rfl

/-- Regions that are apart from one another show that no start has wrapped around. -/
theorem Delimited.start_lt (hdelimited : msg.Delimited msg.layout) :
    ∀ region ∈ placed 94 msg.sizes, region.size ≠ 0 → region.start < 2 ^ 16 := by
  have hapart := hdelimited.apart
  rw [regions_layout hdelimited.size_lt] at hapart
  refine (apart_wrapped_iff msg.sizes (by decide)).mp ?_
  rw [wrapped_eq]
  cases hext : msg.fedAuthExt with
  | none =>
    refine List.pairwise_append.mpr ⟨(List.pairwise_append.mp hapart).1,
      List.pairwise_singleton _ _, ?_⟩
    intro region _ other hother
    obtain rfl := List.mem_singleton.mp hother
    refine .inr (.inl ?_)
    exact (msg.pointer_size).trans (by rw [hext]; rfl)
  | some ext =>
    have hsub : [bytesRegion 5 msg.layout].Sublist
        [bytesRegion 5 msg.layout, featureRegion msg.layout] := (List.nil_sublist _).cons_cons _
    rw [← msg.extension_entry_some hext, ← List.cons_append]
    exact hapart.sublist ((List.Sublist.refl _).append hsub)

theorem fits_of_delimited (hdelimited : msg.Delimited msg.layout) : msg.Fits := by
  refine ⟨fun region hregion hne =>
    ⟨hdelimited.start_lt region hregion hne, hdelimited.size_lt region hregion⟩, ?_⟩
  have hlength := hdelimited.length
  rw [leNat_take, layout_length] at hlength
  omega

/-- The feature data begin where the last field ends. -/
theorem placedEnd_eq {ext : FedAuthExt} (hext : msg.fedAuthExt = some ext) :
    placedEnd 94 msg.sizes = (msg.region 11).start + 4 := by
  rw [← pieces_length, placedEnd_lengths, pieces, List.flatten_append, List.length_append,
    List.flatten_singleton, pointerPiece_length hext, pointer_start, Nat.add_assoc]

theorem Fits.pointer_lt {ext : FedAuthExt} (hfits : msg.Fits) (hext : msg.fedAuthExt = some ext) :
    (msg.region 11).start < 2 ^ 16 := by
  refine (hfits.1 _ (List.mem_of_getElem? (msg.region_getElem? (by decide))) ?_).1
  rw [pointer_size, hext, Option.isSome_some, if_pos rfl]
  decide

theorem Fits.size_lt (hfits : msg.Fits) : ∀ region ∈ placed 94 msg.sizes, region.size < 2 ^ 16 := by
  intro region hregion
  by_cases hempty : region.size = 0
  · omega
  · exact (hfits.1 region hregion hempty).2

theorem Fits.apart (hfits : msg.Fits) : (regions msg.layout).Pairwise Region.Apart := by
  have hwrapped := (apart_wrapped_iff msg.sizes (show 0 < 2 ^ 16 by decide)).mpr
    fun region hregion hne => (hfits.1 region hregion hne).1
  rw [regions_layout hfits.size_lt]
  cases hext : msg.fedAuthExt with
  | none =>
    rw [wrapped_eq, ← List.cons_append] at hwrapped
    rw [(msg.readExtension_none hext).2, msg.extension_entry_none hext]
    refine List.pairwise_append.mpr ⟨(List.pairwise_append.mp hwrapped).1, ?_, ?_⟩
    · exact List.pairwise_pair.mpr (.inl rfl)
    · intro region _ other hother
      simp only [List.mem_cons, List.not_mem_nil, or_false] at hother
      rcases hother with rfl | rfl
      · exact .inr (.inl rfl)
      · exact .inr (.inl rfl)
  | some ext =>
    have hfeature := (msg.readExtension_some hext (hfits.pointer_lt hext) hfits.2).2
    rw [msg.extension_entry_some hext, hfeature, List.append_cons, List.cons_append, ← wrapped_eq]
    refine List.pairwise_append.mpr ⟨hwrapped, List.pairwise_singleton _ _, ?_⟩
    intro region hregion other hother
    obtain rfl := List.mem_singleton.mp hother
    rw [← placedEnd_eq hext]
    rcases List.mem_cons.mp hregion with rfl | hregion
    · refine .inr (.inr (.inl ?_))
      rw [Nat.zero_add]
      exact le_placedEnd 94 msg.sizes
    · obtain ⟨region, hplaced, rfl⟩ := List.mem_map.mp hregion
      by_cases hempty : region.size = 0
      · exact .inl hempty
      · have hstart : region.start % 2 ^ 16 = region.start :=
          Nat.mod_eq_of_lt (hfits.1 region hplaced hempty).1
        refine .inr (.inr (.inl ?_))
        rw [Region.wrap, hstart]
        exact (placed_bounds region hplaced).2

theorem delimited_of_fits (hfits : msg.Fits) : msg.Delimited msg.layout := by
  refine ⟨msg.hostname_field.readText_eq hfits.1, msg.username_field.readText_eq hfits.1,
    msg.password_field.readPassword_eq hfits.1, msg.appName_field.readText_eq hfits.1,
    msg.serverName_field.readText_eq hfits.1, msg.cltIntName_field.readText_eq hfits.1,
    msg.language_field.readText_eq hfits.1, msg.dbName_field.readText_eq hfits.1, ?_,
    msg.atchDbFile_field.readText_eq hfits.1, msg.changePassword_field.readText_eq hfits.1, ?_,
    hfits.apart, ?_⟩
  · have hregion := @region_getElem? msg 8 (by decide)
    have hplace := List.mem_of_getElem? hregion
    refine msg.readRegion_layout hregion rfl (by rw [sspi_entry]) ?_
      fun hne => (hfits.1 _ hplace hne).1
    rw [sspi_entry]
    exact Nat.mod_eq_of_lt (hfits.size_lt _ hplace)
  · cases hext : msg.fedAuthExt with
    | none => exact (msg.readExtension_none hext).1
    | some ext => exact (msg.readExtension_some hext (hfits.pointer_lt hext) hfits.2).1
  · rw [leNat_take, layout_length]
    exact Nat.mod_eq_of_lt hfits.2

end Delimited

end LoginMessage

/-- The encoder never fails, and what it delimits shows that the fields fit. -/
theorem LoginMessage.fits_of_encoded {msg : LoginMessage}
    (hencoded : (∃ error, msg.encodeToBoxedSlice = .error (.error error)) ∨
      ∃ buf, msg.encodeToBoxedSlice = .ok buf ∧ msg.Delimited buf) : msg.Fits := by
  rw [msg.encode_eq] at hencoded
  rcases hencoded with ⟨error, herror⟩ | ⟨buf, hbuf, hdelimited⟩
  · cases herror
  · obtain rfl := Except.ok.inj hbuf
    exact fits_of_delimited hdelimited

/-- The encoder either fails or delimits every field, exactly for the messages whose
fields fit. -/
theorem login_delimited_iff (msg : LoginMessage) :
    ((∃ error, msg.encodeToBoxedSlice = .error (.error error)) ∨
      ∃ buf, msg.encodeToBoxedSlice = .ok buf ∧ msg.Delimited buf) ↔ msg.Fits := by
  constructor
  · exact LoginMessage.fits_of_encoded
  · intro hfits
    exact .inr ⟨msg.layout, msg.encode_eq, LoginMessage.delimited_of_fits hfits⟩

theorem utf16Bytes_replicate (count : ℕ) :
    utf16Bytes (String.ofList (List.replicate count 'a')) = count * 2 := by
  rw [utf16Bytes, String.toList_ofList, encodeUtf16_replicate]

theorem LoginMessage.Fits.username_lt {msg : LoginMessage} (hfits : msg.Fits) :
    utf16Bytes msg.username < 2 ^ 16 := by
  rw [← msg.username_field.size]
  exact hfits.size_lt _ (List.mem_of_getElem? msg.username_field.region)

/-- A user name of 32768 letters, whose length in the table is 0. -/
theorem login_undelimited_username :
    ¬ ((∃ error, { LoginMessage.new "" with
          username := String.ofList (List.replicate 32768 'a') }.encodeToBoxedSlice =
            .error (.error error)) ∨
      ∃ buf, { LoginMessage.new "" with
          username := String.ofList (List.replicate 32768 'a') }.encodeToBoxedSlice = .ok buf ∧
        { LoginMessage.new "" with
          username := String.ofList (List.replicate 32768 'a') }.Delimited buf) := by
  intro hencoded
  have hlt := (LoginMessage.fits_of_encoded hencoded).username_lt
  rw [utf16Bytes_replicate] at hlt
  omega

end Tiberius
