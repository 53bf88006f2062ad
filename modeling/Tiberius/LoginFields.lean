import Tiberius.Login

/-!
What the login message looks like in the end. The encoder goes back and forth
between the table and the fields, and what it leaves is the fixed part, the
table and the fields one behind the other, with the feature data of an extension
at the end. It never fails.
-/

namespace Tiberius

open Reading Reader Program Writing Login7

theorem writeUnits_parts {room : ℕ} {cursor : WriteCursor UInt8} {front data : List UInt8}
    (hparts : TwoPart 0 room (cursor.seek front.length) front data)
    (hpos : cursor.pos = room + data.length) (units : List UInt16) :
    TwoPart 0 room ((writeUnits units cursor).seek front.length) front (data ++ putUnits units) ∧
      (writeUnits units cursor).pos = room + data.length + (putUnits units).length := by
  induction units generalizing cursor data with
  | nil =>
    rw [show putUnits [] = [] from rfl, List.append_nil]
    exact ⟨hparts, hpos⟩
  | cons unit units ih =>
    have hwrite := hparts.append_data hpos (toLe 2 unit.toNat)
    have hnext : (cursor.write 0 (toLe 2 unit.toNat)).pos =
        room + (data ++ toLe 2 unit.toNat).length := by
      rw [WriteCursor.write_pos, hpos, List.length_append, Nat.add_assoc]
    obtain ⟨hrest, hend⟩ := ih hwrite hnext
    rw [show putUnits (unit :: units) = toLe 2 unit.toNat ++ putUnits units from rfl]
    refine ⟨?_, ?_⟩
    · rw [← List.append_assoc]
      exact hrest
    · rw [List.length_append, ← Nat.add_assoc, Nat.add_assoc room, ← List.length_append]
      exact hend

theorem putText_length (text : String) :
    (putUnits (encodeUtf16 text.toList)).length = utf16Bytes text := by
  rw [putUnits_length, utf16Bytes, Nat.mul_comm]

/-- An encoding that has come to a front of the table and to some data. -/
structure LoginEncoder.Holds (enc : LoginEncoder) (front data : List UInt8) : Prop where
  parts : TwoPart 0 94 enc.cursor front data
  offset : enc.dataOffset = 94 + data.length

namespace LoginMessage

/-- The data of one field. -/
def fieldData (msg : LoginMessage) (i : ℕ) (value : String) : List UInt8 :=
  if i = 9 then []
  else if i = 10 then msg.integratedSecurity.getD []
  else if i = 2 then (putUnits (encodeUtf16 value.toList)).map obfuscate
  else putUnits (encodeUtf16 value.toList)

/-- The entry of one field whose data have a given offset and length. -/
def fieldEntry (i offset length : ℕ) : List UInt8 :=
  if i = 9 then toLe 4 0 ++ toLe 2 42
  else if i = 10 then toLe 2 (UInt16.ofNat offset).toNat ++ toLe 2 (UInt16.ofNat length).toNat
  else toLe 2 (UInt16.ofNat offset).toNat ++ toLe 2 (UInt16.ofNat length / 2).toNat

theorem fieldEntry_text {i : ℕ} (offset length : ℕ) (hid : i ≠ 9) (hsspi : i ≠ 10) :
    fieldEntry i offset length =
      toLe 2 (UInt16.ofNat offset).toNat ++ toLe 2 (UInt16.ofNat length / 2).toNat := by
  rw [fieldEntry, if_neg hid, if_neg hsspi]

/-- The table from one entry on. -/
def table (msg : LoginMessage) : ℕ → List String → ℕ → List UInt8
  | _, [], _ => []
  | i, value :: values, offset =>
    fieldEntry i offset (msg.fieldData i value).length ++
      msg.table (i + 1) values (offset + (msg.fieldData i value).length)

/-- The data from one field on. -/
def fields (msg : LoginMessage) : ℕ → List String → List UInt8
  | _, [] => []
  | i, value :: values => msg.fieldData i value ++ msg.fields (i + 1) values

variable {msg : LoginMessage} {enc : LoginEncoder} {front data : List UInt8} {i : ℕ}
  {value : String}

theorem encodeField_clientId (hholds : enc.Holds front data) (hfits : front.length + 6 ≤ 94) :
    (msg.encodeField 9 value enc).Holds (front ++ (toLe 4 0 ++ toLe 2 42)) data := by
  have hfirst := hholds.parts.write_front (toLe 4 0) (by rw [toLe_length]; omega)
  have hsecond := hfirst.write_front (toLe 2 42)
    (by rw [List.length_append, toLe_length, toLe_length]; omega)
  rw [List.append_assoc] at hsecond
  exact ⟨hsecond, hholds.offset⟩

theorem encodeField_sspi (hholds : enc.Holds front data) (hfits : front.length + 4 ≤ 94) :
    (msg.encodeField 10 value enc).Holds
      (front ++ (toLe 2 (UInt16.ofNat enc.dataOffset).toNat ++
        toLe 2 (UInt16.ofNat (msg.integratedSecurity.getD []).length).toNat))
      (data ++ msg.integratedSecurity.getD []) := by
  have hentry := hholds.parts.write_front (toLe 2 (UInt16.ofNat enc.dataOffset).toNat)
    (by rw [toLe_length]; omega)
  have hroom : (front ++ toLe 2 (UInt16.ofNat enc.dataOffset).toNat).length + 2 ≤ 94 := by
    rw [List.length_append, toLe_length]
    omega
  cases hsspi : msg.integratedSecurity with
  | none =>
    have hlength := hentry.write_front (toLe 2 0) (by rw [toLe_length]; exact hroom)
    rw [List.append_assoc] at hlength
    rw [Option.getD_none, List.append_nil]
    refine ⟨?_, ?_⟩
    · simp only [encodeField, hsspi]
      exact hlength
    · simp only [encodeField, hsspi]
      exact hholds.offset
  | some bytes =>
    have hdata := hentry.write_data bytes
    have hlength := hdata.write_front (toLe 2 (UInt16.ofNat bytes.length).toNat)
      (by rw [toLe_length]; exact hroom)
    rw [List.append_assoc, ← hholds.offset] at hlength
    rw [Option.getD_some]
    refine ⟨?_, ?_⟩
    · simp only [encodeField, hsspi]
      exact hlength
    · simp only [encodeField, hsspi]
      rw [List.length_append, ← Nat.add_assoc, ← hholds.offset]
      rfl

theorem fieldData_length (msg : LoginMessage) {i : ℕ} {value : String} (hi : i ≠ 9)
    (hi' : i ≠ 10) : (msg.fieldData i value).length = utf16Bytes value := by
  rw [fieldData, if_neg hi, if_neg hi']
  split_ifs
  · rw [List.length_map, putText_length]
  · rw [putText_length]

theorem encodeField_text (hi : i ≠ 9) (hi' : i ≠ 10) (hholds : enc.Holds front data)
    (hfits : front.length + 4 ≤ 94) :
    (msg.encodeField i value enc).Holds
      (front ++ (toLe 2 (UInt16.ofNat enc.dataOffset).toNat ++
        toLe 2 (UInt16.ofNat (msg.fieldData i value).length / 2).toNat))
      (data ++ msg.fieldData i value) := by
  have hentry := hholds.parts.write_front (toLe 2 (UInt16.ofNat enc.dataOffset).toNat)
    (by rw [toLe_length]; omega)
  rw [← List.append_assoc]
  generalize hfront : front ++ toLe 2 (UInt16.ofNat enc.dataOffset).toNat = first at hentry ⊢
  have hroom : first.length + 2 ≤ 94 := by
    rw [← hfront, List.length_append, toLe_length]
    omega
  generalize hcursor : enc.cursor.write 0 (toLe 2 (UInt16.ofNat enc.dataOffset).toNat) = cursor
    at hentry
  -- The text goes behind the data that are there, and the cursor comes back to the table.
  have hback : (cursor.seek enc.dataOffset).seek first.length = cursor := by
    rw [← hentry.pos]
    rfl
  obtain ⟨hunits, hend⟩ := writeUnits_parts (hback.symm ▸ hentry) hholds.offset
    (encodeUtf16 value.toList)
  generalize hwritten : writeUnits (encodeUtf16 value.toList) (cursor.seek enc.dataOffset) = written
    at hunits hend
  have hlength : written.pos - enc.dataOffset = (msg.fieldData i value).length := by
    rw [hend, ← hholds.offset, Nat.add_sub_cancel_left, msg.fieldData_length hi hi', putText_length]
  have hdata : TwoPart 0 94
      ((if i = 2 then written.mapRange obfuscate enc.dataOffset written.pos else written).seek
        first.length) first (data ++ msg.fieldData i value) := by
    rw [fieldData, if_neg hi, if_neg hi']
    split_ifs
    · rw [hend, hholds.offset]
      exact hunits.mapRange_data obfuscate
    · exact hunits
  have hfinal := hdata.write_front
    (toLe 2 (UInt16.ofNat (msg.fieldData i value).length / 2).toNat)
    (by rw [toLe_length]; exact hroom)
  refine ⟨?_, ?_⟩
  · simp only [encodeField, if_neg hi, if_neg hi', hcursor, hwritten, hlength]
    rw [hentry.pos]
    exact hfinal
  · simp only [encodeField, if_neg hi, if_neg hi', hcursor, hwritten, hlength]
    rw [List.length_append, ← Nat.add_assoc, ← hholds.offset]

theorem encodeField_holds (hholds : enc.Holds front data)
    (hfits : front.length +
      (fieldEntry i enc.dataOffset (msg.fieldData i value).length).length ≤ 94) :
    (msg.encodeField i value enc).Holds
      (front ++ fieldEntry i enc.dataOffset (msg.fieldData i value).length)
      (data ++ msg.fieldData i value) := by
  by_cases hid : i = 9
  · subst hid
    rw [show msg.fieldData 9 value = [] from rfl, List.append_nil]
    exact encodeField_clientId hholds hfits
  · by_cases hsspi : i = 10
    · subst hsspi
      exact encodeField_sspi hholds hfits
    · rw [fieldEntry_text _ _ hid hsspi] at hfits ⊢
      exact encodeField_text hid hsspi hholds hfits

/-- The loop fills the table and adds the fields. -/
theorem encodeFields_holds (msg : LoginMessage) (i : ℕ) (values : List String)
    (hholds : enc.Holds front data)
    (hfits : front.length + (msg.table i values enc.dataOffset).length ≤ 94) :
    (msg.encodeFields i values enc).Holds (front ++ msg.table i values enc.dataOffset)
      (data ++ msg.fields i values) := by
  induction values generalizing i enc front data with
  | nil =>
    rw [table, fields, List.append_nil, List.append_nil]
    exact hholds
  | cons value values ih =>
    rw [table, List.length_append] at hfits
    have hfield : (msg.encodeField i value enc).Holds
        (front ++ fieldEntry i enc.dataOffset (msg.fieldData i value).length)
        (data ++ msg.fieldData i value) := encodeField_holds hholds (by omega)
    have hoffset : (msg.encodeField i value enc).dataOffset =
        enc.dataOffset + (msg.fieldData i value).length := by
      rw [hfield.offset, hholds.offset, List.length_append, Nat.add_assoc]
    rw [table, fields, ← List.append_assoc, ← List.append_assoc, ← hoffset]
    refine ih (i + 1) hfield ?_
    rw [List.length_append, hoffset]
    omega

theorem encodeField_feaExtOffset (msg : LoginMessage) (i : ℕ) (value : String)
    (enc : LoginEncoder) :
    (msg.encodeField i value enc).feaExtOffset =
      if i = 5 then enc.cursor.pos else enc.feaExtOffset := by
  rw [encodeField]
  by_cases hid : i = 9
  · rw [if_pos hid]
  · rw [if_neg hid]
    by_cases hsspi : i = 10
    · simp only [hsspi, if_true]
      cases msg.integratedSecurity with
      | none => rfl
      | some bytes => rfl
    · rw [if_neg hsspi]

theorem encodeFields_feaExtOffset (values : List String) (hi : 5 < i) :
    (msg.encodeFields i values enc).feaExtOffset = enc.feaExtOffset := by
  induction values generalizing i enc with
  | nil => rfl
  | cons value values ih =>
    rw [encodeFields, ih (by omega), encodeField_feaExtOffset, if_neg (by omega)]

/-- The sizes of the fields in the order of their data; the pointer of the extension
comes last. -/
def sizes (msg : LoginMessage) : List ℕ :=
  [utf16Bytes msg.hostname, utf16Bytes msg.username, utf16Bytes msg.password,
    utf16Bytes msg.appName, utf16Bytes msg.serverName, 0, 0, utf16Bytes msg.dbName,
    (msg.integratedSecurity.getD []).length, 0, 0, if msg.fedAuthExt.isSome then 4 else 0]

/-- Where a field is. -/
def region (msg : LoginMessage) (index : ℕ) : Region :=
  (placed 94 msg.sizes)[index]?.getD { start := 0, size := 0 }

theorem region_getElem? (msg : LoginMessage) {index : ℕ} (hindex : index < 12) :
    (placed 94 msg.sizes)[index]? = some (msg.region index) := by
  have hlt : index < (placed 94 msg.sizes).length := by
    rw [placed_length]
    exact hindex
  rw [region, List.getElem?_eq_getElem hlt, Option.getD_some]

def textEntry (region : Region) : List (List UInt8) :=
  [toLe 2 (UInt16.ofNat region.start).toNat, toLe 2 (UInt16.ofNat region.size / 2).toNat]

def bytesEntry (region : Region) : List (List UInt8) :=
  [toLe 2 (UInt16.ofNat region.start).toNat, toLe 2 (UInt16.ofNat region.size).toNat]

/-- The entry of an extension, or of none, which has the offset of what follows. -/
def extensionEntry (msg : LoginMessage) : List (List UInt8) :=
  bytesEntry (if msg.fedAuthExt.isSome then msg.region 11
    else { start := (msg.region 5).start, size := 0 })

/-- The entries in front of the one of the extension. -/
def tableFront (msg : LoginMessage) : List (List UInt8) :=
  textEntry (msg.region 0) ++ textEntry (msg.region 1) ++ textEntry (msg.region 2) ++
    textEntry (msg.region 3) ++ textEntry (msg.region 4)

/-- The entries behind the one of the extension, with the client id among them. -/
def tableBack (msg : LoginMessage) : List (List UInt8) :=
  textEntry (msg.region 5) ++ textEntry (msg.region 6) ++ textEntry (msg.region 7) ++
    [toLe 4 0 ++ toLe 2 42] ++ bytesEntry (msg.region 8) ++ textEntry (msg.region 9) ++
    textEntry (msg.region 10)

/-- The fixed part and the table, with a length in front. -/
def frontPieces (msg : LoginMessage) (length : ℕ) : List (List UInt8) :=
  toLe 4 (UInt32.ofNat length).toNat :: msg.fixedPart.tail ++ msg.tableFront ++
    msg.extensionEntry ++ msg.tableBack ++ [toLe 4 0]

/-- The data of the fields of the table. -/
def fieldPieces (msg : LoginMessage) : List (List UInt8) :=
  [putUnits (encodeUtf16 msg.hostname.toList), putUnits (encodeUtf16 msg.username.toList),
    (putUnits (encodeUtf16 msg.password.toList)).map obfuscate,
    putUnits (encodeUtf16 msg.appName.toList), putUnits (encodeUtf16 msg.serverName.toList), [], [],
    putUnits (encodeUtf16 msg.dbName.toList), msg.integratedSecurity.getD [], [], []]

/-- The pointer to the feature data. -/
def pointerPiece (msg : LoginMessage) : List UInt8 :=
  if msg.fedAuthExt.isSome then toLe 4 (UInt32.ofNat ((msg.region 11).start + 4)).toNat else []

def pieces (msg : LoginMessage) : List (List UInt8) := msg.fieldPieces ++ [msg.pointerPiece]

end LoginMessage

/-- The feature data of an extension. -/
def FedAuthExt.feature (ext : FedAuthExt) : List UInt8 :=
  let token := putUnits (encodeUtf16 ext.fedAuthToken.toList)
  let nonce := (ext.nonce.map Vector.toList).getD []
  [0x02] ++ toLe 4 (UInt32.ofNat (1 + 4 + token.length + nonce.length)).toNat ++ [ext.options] ++
    toLe 4 (UInt32.ofNat token.length).toNat ++ token ++ nonce ++ [0xFF]

namespace LoginMessage

def layout (msg : LoginMessage) : List UInt8 :=
  (msg.frontPieces msg.encodedLen).flatten ++ msg.pieces.flatten ++
    (msg.fedAuthExt.map FedAuthExt.feature).getD []

theorem pointerPiece_length {msg : LoginMessage} {ext : FedAuthExt}
    (hext : msg.fedAuthExt = some ext) : msg.pointerPiece.length = 4 := by
  rw [pointerPiece, hext, Option.isSome_some, if_pos rfl]
  exact toLe_length _ _

theorem pieces_length (msg : LoginMessage) : msg.pieces.map List.length = msg.sizes := by
  have hpointer : msg.pointerPiece.length = if msg.fedAuthExt.isSome then 4 else 0 := by
    rw [pointerPiece]
    split_ifs
    · exact toLe_length _ _
    · rfl
  simp only [pieces, fieldPieces, List.cons_append, List.nil_append, List.map_cons, List.map_nil,
    putText_length, List.length_map, hpointer, List.length_nil, sizes]

theorem table_eq (msg : LoginMessage) :
    msg.table 0 msg.varData 94 = msg.tableFront.flatten ++
      (toLe 2 (UInt16.ofNat (msg.region 5).start).toNat ++ toLe 2 0) ++ msg.tableBack.flatten := by
  have hempty : utf16Bytes "" = 0 := rfl
  have hsspi : msg.fieldData 10 "" = msg.integratedSecurity.getD [] := rfl
  have hid : msg.fieldData 9 "" = [] := rfl
  have hzero : (UInt16.ofNat 0 / 2).toNat = 0 := rfl
  simp (disch := decide) only [varData, table, Nat.reduceAdd, hsspi, hid, List.length_nil,
    Nat.add_zero, hempty, msg.fieldData_length, fieldEntry_text]
  simp only [fieldEntry, Nat.reduceEqDiff, if_true, if_false, tableFront, tableBack, textEntry,
    bytesEntry, region, sizes, placed, List.getElem?_cons_succ, List.getElem?_cons_zero,
    Option.getD_some, Nat.add_zero, hzero, List.flatten_append, List.flatten_cons,
    List.flatten_nil, List.append_assoc, List.append_nil]

theorem fields_eq (msg : LoginMessage) : msg.fields 0 msg.varData = msg.fieldPieces.flatten := rfl

theorem fixedPart_length (msg : LoginMessage) : msg.fixedPart.flatten.length = 36 := rfl

theorem tableFront_length (msg : LoginMessage) : msg.tableFront.flatten.length = 20 := rfl

theorem tableBack_length (msg : LoginMessage) : msg.tableBack.flatten.length = 30 := rfl

theorem fieldPieces_length (msg : LoginMessage) :
    msg.fieldPieces.flatten.length = utf16Bytes msg.hostname + utf16Bytes msg.username +
      utf16Bytes msg.password + utf16Bytes msg.appName + utf16Bytes msg.serverName +
      utf16Bytes msg.dbName + (msg.integratedSecurity.getD []).length := by
  simp only [fieldPieces, List.flatten_cons, List.flatten_nil, List.length_append, putText_length,
    List.length_map, List.length_nil]
  omega

theorem pointer_start (msg : LoginMessage) :
    (msg.region 11).start = 94 + msg.fieldPieces.flatten.length := by
  rw [fieldPieces_length]
  simp only [region, sizes, placed, List.getElem?_cons_succ, List.getElem?_cons_zero,
    Option.getD_some]
  omega

/-- The entry of the extension is the sixth of the table. -/
theorem encodeFields_extension (msg : LoginMessage) {enc : LoginEncoder}
    (henc : enc.Holds msg.fixedPart.flatten []) :
    (msg.encodeFields 0 msg.varData enc).feaExtOffset = 56 := by
  have hsplit : msg.encodeFields 0 msg.varData enc =
      msg.encodeFields 6 ["", "", msg.dbName, "", "", "", ""] (msg.encodeField 5 ""
        (msg.encodeFields 0 (msg.varData.take 5) enc)) := rfl
  have hlength : (msg.table 0 (msg.varData.take 5) enc.dataOffset).length = 20 := rfl
  have hfirst := encodeFields_holds msg 0 (msg.varData.take 5) henc (by
    rw [hlength, fixedPart_length]
    decide)
  rw [hsplit, encodeFields_feaExtOffset _ (by decide), encodeField_feaExtOffset, if_pos rfl,
    hfirst.parts.pos, List.length_append, hlength, fixedPart_length]

/-- The encoding when the table is complete. -/
theorem encodeFields_bytes (msg : LoginMessage) {enc : LoginEncoder}
    (henc : enc.Holds msg.fixedPart.flatten []) :
    (msg.encodeFields 0 msg.varData enc).dataOffset = 94 + msg.fieldPieces.flatten.length ∧
      (((msg.encodeFields 0 msg.varData enc).cursor.write 0 (toLe 4 0)).bytes =
        msg.fixedPart.flatten ++ msg.tableFront.flatten ++
          (toLe 2 (UInt16.ofNat (msg.region 5).start).toNat ++ toLe 2 0) ++
          (msg.tableBack.flatten ++ toLe 4 0) ++ msg.fieldPieces.flatten) := by
  have hlength : (msg.table 0 msg.varData 94).length = 54 := by
    rw [table_eq]
    simp only [List.length_append, tableFront_length, tableBack_length, toLe_length]
  have hoffset : enc.dataOffset = 94 := henc.offset
  have hholds := encodeFields_holds msg 0 msg.varData henc (by
    rw [hoffset, hlength, fixedPart_length]
    decide)
  rw [hoffset, List.nil_append, fields_eq] at hholds
  have hfull := hholds.parts.write_front (toLe 4 0) (by
    rw [List.length_append, hlength, fixedPart_length]
    decide)
  refine ⟨hholds.offset, ?_⟩
  rw [hfull.bytes_eq (by
    rw [List.length_append, List.length_append, hlength, fixedPart_length]
    rfl), table_eq]
  simp only [List.append_assoc]

end LoginMessage

/-- The entry of the extension is written over, and the rest goes to the end. -/
theorem FedAuthExt.encode_eq (ext : FedAuthExt) {enc : LoginEncoder}
    {head first second behind : List UInt8}
    (hbytes : enc.cursor.bytes = head ++ first ++ second ++ behind)
    (hhead : enc.feaExtOffset = head.length) (hfirst : first.length = 2)
    (hsecond : second.length = 2)
    (hend : enc.dataOffset = (head ++ first ++ second ++ behind).length) :
    ext.encode enc = .atEnd (head ++ toLe 2 (UInt16.ofNat enc.dataOffset).toNat ++ toLe 2 4 ++
      behind ++ toLe 4 (UInt32.ofNat (enc.dataOffset + 4)).toNat ++ ext.feature) := by
  have hoffset : (enc.cursor.seek enc.feaExtOffset).write 0
        (toLe 2 (UInt16.ofNat enc.dataOffset).toNat) =
      { bytes := head ++ toLe 2 (UInt16.ofNat enc.dataOffset).toNat ++ (second ++ behind)
        pos := head.length + 2 } := by
    rw [WriteCursor.seek, hbytes, hhead, List.append_assoc (head ++ first)]
    exact WriteCursor.write_over 0 head first _ (second ++ behind) hfirst
  have hlength : WriteCursor.write
        { bytes := head ++ toLe 2 (UInt16.ofNat enc.dataOffset).toNat ++ (second ++ behind)
          pos := head.length + 2 } 0 (toLe 2 4) =
      { bytes := head ++ toLe 2 (UInt16.ofNat enc.dataOffset).toNat ++ toLe 2 4 ++ behind
        pos := head.length + 4 } := by
    rw [← List.append_assoc _ second]
    have hwrite := WriteCursor.write_over 0
      (head ++ toLe 2 (UInt16.ofNat enc.dataOffset).toNat) second (toLe 2 4) behind hsecond
    rw [List.length_append, toLe_length, toLe_length] at hwrite
    exact hwrite
  have hseek : WriteCursor.seek
        { bytes := head ++ toLe 2 (UInt16.ofNat enc.dataOffset).toNat ++ toLe 2 4 ++ behind
          pos := head.length + 4 } enc.dataOffset =
      .atEnd (head ++ toLe 2 (UInt16.ofNat enc.dataOffset).toNat ++ toLe 2 4 ++ behind) := by
    rw [WriteCursor.seek, WriteCursor.atEnd, hend]
    simp only [List.length_append, hfirst, hsecond, toLe_length]
  simp only [encode, hoffset, hlength, hseek, WriteCursor.atEnd_write]
  cases hnonce : ext.nonce with
  | none =>
    simp only [feature, hnonce, WriteCursor.atEnd_write, Option.isSome_none, Bool.false_eq_true,
      if_false, Option.map_none, Option.getD_none, List.length_nil, List.append_nil,
      List.append_assoc]
  | some nonce =>
    have hsize : nonce.toList.length = 32 := Vector.length_toList
    simp only [feature, hnonce, WriteCursor.atEnd_write, Option.isSome_some, if_true,
      Option.map_some, Option.getD_some, hsize, List.append_assoc]

theorem FedAuthExt.feature_length (ext : FedAuthExt) :
    ext.feature.length =
      11 + utf16Bytes ext.fedAuthToken + if ext.nonce.isSome then 32 else 0 := by
  have hnonce : ((ext.nonce.map Vector.toList).getD []).length =
      if ext.nonce.isSome then 32 else 0 := by
    cases ext.nonce with
    | none => rfl
    | some nonce => exact Vector.length_toList
  simp only [feature, List.length_append, List.length_cons, List.length_nil, toLe_length,
    putText_length, hnonce]
  omega

namespace LoginMessage

theorem frontPieces_length (msg : LoginMessage) (length : ℕ) :
    (msg.frontPieces length).flatten.length = 94 := by
  have hextension : msg.extensionEntry.flatten.length = 4 := rfl
  have htail : msg.fixedPart.tail.flatten.length = 32 := rfl
  simp only [frontPieces, List.cons_append, List.flatten_cons, List.flatten_append,
    List.length_append, toLe_length, htail, tableFront_length, tableBack_length, hextension,
    List.flatten_nil, List.length_nil]

theorem layout_length (msg : LoginMessage) : msg.layout.length = msg.encodedLen := by
  rw [layout, List.length_append, List.length_append, frontPieces_length, pieces,
    List.flatten_append, List.length_append, fieldPieces_length, encodedLen]
  have hsspi : msg.integratedSecurity.elim 0 List.length =
      (msg.integratedSecurity.getD []).length := by
    cases msg.integratedSecurity <;> rfl
  rw [hsspi]
  cases hext : msg.fedAuthExt with
  | none =>
    have hpointer : [msg.pointerPiece].flatten.length = 0 := by
      rw [pointerPiece, hext]
      rfl
    rw [hpointer]
    simp only [Option.map_none, Option.getD_none, List.length_nil, Option.elim_none]
    omega
  | some ext =>
    have hpointer : [msg.pointerPiece].flatten.length = 4 := by
      rw [pointerPiece, hext]
      rfl
    rw [hpointer]
    simp only [Option.map_some, Option.getD_some, FedAuthExt.feature_length, Option.elim_some]
    omega

theorem encodeTable_holds (msg : LoginMessage) :
    msg.encodeTable.feaExtOffset = 56 ∧
      msg.encodeTable.dataOffset = 94 + msg.fieldPieces.flatten.length ∧
      msg.encodeTable.cursor.bytes =
        msg.fixedPart.flatten ++ msg.tableFront.flatten ++
          (toLe 2 (UInt16.ofNat (msg.region 5).start).toNat ++ toLe 2 0) ++
          (msg.tableBack.flatten ++ toLe 4 0) ++ msg.fieldPieces.flatten := by
  have hempty : TwoPart 0 94 ({ bytes := [], pos := 0 } : WriteCursor UInt8) [] [] :=
    ⟨rfl, by decide, .inl ⟨rfl, rfl⟩⟩
  have hfixed := hempty.write_fronts msg.fixedPart (by rw [fixedPart_length]; decide)
  rw [List.nil_append] at hfixed
  generalize hcursor : msg.fixedPart.foldl (fun cursor bytes => cursor.write 0 bytes)
    ({ bytes := [], pos := 0 } : WriteCursor UInt8) = cursor at hfixed
  have hstart : LoginEncoder.Holds
      { cursor, dataOffset := cursor.pos + msg.varData.length * 2 * 2 + 6, feaExtOffset := 0 }
      msg.fixedPart.flatten [] := by
    refine ⟨hfixed, ?_⟩
    rw [hfixed.pos, fixedPart_length]
    rfl
  generalize henc : LoginEncoder.mk cursor (cursor.pos + msg.varData.length * 2 * 2 + 6) 0 = enc
    at hstart
  have htable : msg.encodeTable = { msg.encodeFields 0 msg.varData enc with
      cursor := (msg.encodeFields 0 msg.varData enc).cursor.write 0 (toLe 4 0) } := by
    simp only [encodeTable, hcursor, henc]
  obtain ⟨hoffset, hbytes⟩ := msg.encodeFields_bytes hstart
  have hextension := msg.encodeFields_extension hstart
  generalize msg.encodeFields 0 msg.varData enc = filled at htable hextension hoffset hbytes
  rw [htable]
  exact ⟨hextension, hoffset, hbytes⟩

/-- The length in front is that of the layout. -/
theorem finish_eq (msg : LoginMessage) {cursor : WriteCursor UInt8} {rest : List UInt8}
    (hbytes : cursor.bytes = toLe 4 0 ++ rest)
    (hlayout : msg.layout = toLe 4 (UInt32.ofNat msg.encodedLen).toNat ++ rest) :
    msg.finish cursor = .ok msg.layout := by
  have hlength : cursor.bytes.length = msg.encodedLen := by
    rw [hbytes, ← layout_length, hlayout, List.length_append, List.length_append, toLe_length,
      toLe_length]
  have hwrite := WriteCursor.write_over 0 [] (toLe 4 0)
    (toLe 4 (UInt32.ofNat msg.encodedLen).toNat) rest rfl
  rw [List.nil_append, List.nil_append, ← hlayout] at hwrite
  have hfinal : ((cursor.seek 0).write 0
      (toLe 4 (UInt32.ofNat cursor.bytes.length).toNat)).bytes = msg.layout := by
    rw [hlength, WriteCursor.seek, hbytes]
    exact congrArg WriteCursor.bytes hwrite
  simp only [finish, hfinal, layout_length, Nat.lt_irrefl, if_false]

theorem frontPieces_flatten (msg : LoginMessage) (length : ℕ) :
    (msg.frontPieces length).flatten = toLe 4 (UInt32.ofNat length).toNat ++
      (msg.fixedPart.tail.flatten ++ msg.tableFront.flatten ++ msg.extensionEntry.flatten ++
        (msg.tableBack.flatten ++ toLe 4 0)) := by
  simp only [frontPieces, List.cons_append, List.flatten_cons, List.flatten_append,
    List.flatten_nil, List.append_nil, List.append_assoc]

theorem pointer_size (msg : LoginMessage) :
    (msg.region 11).size = if msg.fedAuthExt.isSome then 4 else 0 := rfl

theorem encode_eq (msg : LoginMessage) : msg.encodeToBoxedSlice = .ok msg.layout := by
  obtain ⟨hextension, hoffset, hbytes⟩ := msg.encodeTable_holds
  have hfixed : msg.fixedPart.flatten = toLe 4 0 ++ msg.fixedPart.tail.flatten := rfl
  rw [encodeToBoxedSlice]
  cases hext : msg.fedAuthExt with
  | none =>
    have hentry : msg.extensionEntry.flatten =
        toLe 2 (UInt16.ofNat (msg.region 5).start).toNat ++ toLe 2 0 := by
      rw [extensionEntry, hext]
      rfl
    have hpointer : msg.pointerPiece = [] := by
      rw [pointerPiece, hext]
      rfl
    rw [hfixed, List.append_assoc, List.append_assoc, List.append_assoc, List.append_assoc] at hbytes
    refine msg.finish_eq hbytes ?_
    rw [layout, frontPieces_flatten, hentry, pieces, hpointer, hext]
    simp only [List.flatten_append, List.flatten_cons, List.flatten_nil, Option.map_none,
      Option.getD_none, List.append_nil, List.append_assoc]
  | some ext =>
    have hentry : msg.extensionEntry.flatten =
        toLe 2 (UInt16.ofNat msg.encodeTable.dataOffset).toNat ++ toLe 2 4 := by
      have hsize : (msg.region 11).size = 4 := by
        rw [pointer_size, hext]
        rfl
      rw [hoffset, ← pointer_start, extensionEntry, hext]
      simp only [Option.isSome_some, if_true, bytesEntry, hsize, List.flatten_cons,
        List.flatten_nil, List.append_nil]
      rfl
    have hpointer : msg.pointerPiece =
        toLe 4 (UInt32.ofNat (msg.encodeTable.dataOffset + 4)).toNat := by
      rw [hoffset, ← pointer_start, pointerPiece, hext]
      rfl
    have hhead : msg.encodeTable.feaExtOffset =
        (msg.fixedPart.flatten ++ msg.tableFront.flatten).length := by
      rw [hextension, List.length_append, fixedPart_length, tableFront_length]
    rw [← List.append_assoc (msg.fixedPart.flatten ++ msg.tableFront.flatten),
      List.append_assoc _ (msg.tableBack.flatten ++ toLe 4 0)] at hbytes
    have hend : msg.encodeTable.dataOffset = (msg.fixedPart.flatten ++ msg.tableFront.flatten ++
        toLe 2 (UInt16.ofNat (msg.region 5).start).toNat ++ toLe 2 0 ++
        (msg.tableBack.flatten ++ toLe 4 0 ++ msg.fieldPieces.flatten)).length := by
      simp only [List.length_append, fixedPart_length, tableFront_length, tableBack_length,
        toLe_length, hoffset]
      omega
    have hencode := ext.encode_eq hbytes hhead (toLe_length _ _) (toLe_length _ _) hend
    rw [hfixed, ← hpointer] at hencode
    refine @finish_eq msg _ (msg.fixedPart.tail.flatten ++ msg.tableFront.flatten ++
      msg.extensionEntry.flatten ++ (msg.tableBack.flatten ++ toLe 4 0) ++
      msg.fieldPieces.flatten ++ msg.pointerPiece ++ ext.feature) ?_ ?_
    · rw [hencode, hentry]
      simp only [WriteCursor.atEnd, List.append_assoc]
    · rw [layout, frontPieces_flatten, pieces, hext]
      simp only [List.flatten_append, List.flatten_cons, List.flatten_nil, Option.map_some,
        Option.getD_some, List.append_nil, List.append_assoc]

end LoginMessage

end Tiberius
