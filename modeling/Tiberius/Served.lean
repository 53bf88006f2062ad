import Tiberius.PackedRows
import Tiberius.TokenBounds

/-!
What a server puts on the wire to answer a command, item by item: the columns of a
result set, its rows in either encoding, the counts, the messages, the changes of
the database and the transaction, and the return values and the status of a
procedure. Each item is laid out here from the protocol, and the decoder of tokens
takes exactly its bytes.
-/

namespace Tiberius

open Reading Reader Program

section Texts

/-- Text whose units are counted in one byte. -/
structure ShortText where
  text : String
  short : (encodeUtf16 text.toList).length ≤ 255

/-- Text whose units are counted in two bytes. -/
structure LongText where
  text : String
  short : (encodeUtf16 text.toList).length ≤ 65535

def ShortText.bytes (name : ShortText) : List UInt8 :=
  UInt8.ofNat (encodeUtf16 name.text.toList).length :: putUnits (encodeUtf16 name.text.toList)

def LongText.bytes (name : LongText) : List UInt8 :=
  toLe 2 (encodeUtf16 name.text.toList).length ++ putUnits (encodeUtf16 name.text.toList)

variable {env : Context}

theorem ShortText.reads (name : ShortText) : readBVarchar.Reads env name.bytes name.text := by
  have hshort := name.short
  rw [readBVarchar_reads, encodeBVarchar, if_neg (by omega)]
  rfl

theorem LongText.reads (name : LongText) : readUsVarchar.Reads env name.bytes name.text := by
  have hshort := name.short
  rw [readUsVarchar_reads, encodeUsVarchar, if_neg (by omega), bytes, UInt16.toNat_ofNat',
    Nat.mod_eq_of_lt (by omega)]

end Texts

namespace Cursor

variable {α β : Type}

/-- The cursor takes these bytes from the front of a body to give the value. -/
def Takes (cursor : Cursor α) (bytes : List UInt8) (value : α) : Prop :=
  ∀ rest, cursor (bytes ++ rest) = .ok (value, rest)

theorem takes_pure (value : α) : (pure value : Cursor α).Takes [] value := fun _ => rfl

theorem Takes.bind {cursor : Cursor α} {f : α → Cursor β} {first second : List UInt8}
    {middle : α} {value : β} (hfirst : cursor.Takes first middle)
    (hsecond : (f middle).Takes second value) : (cursor >>= f).Takes (first ++ second) value := by
  intro rest
  rw [List.append_assoc, bind_ok (hfirst _)]
  exact hsecond rest

theorem Takes.bind_last {cursor : Cursor α} {f : α → Cursor β} {bytes : List UInt8} {middle : α}
    {value : β} (hfirst : cursor.Takes bytes middle) (hlast : (f middle).Takes [] value) :
    (cursor >>= f).Takes bytes value := by
  simpa only [List.append_nil] using hfirst.bind hlast

theorem takes_take {count : ℕ} {bytes : List UInt8} (hcount : bytes.length = count) :
    (take count).Takes bytes bytes := by
  intro rest
  subst hcount
  rw [take_of_le (by simp), List.take_left, List.drop_left]

/-- A field of a fixed width, whatever is made of its bytes. -/
theorem takes_field {width : ℕ} {f : List UInt8 → α} {bytes : List UInt8} {value : α}
    (hlength : bytes.length = width) (hvalue : f bytes = value) :
    (do let bytes ← take width; pure (f bytes) : Cursor α).Takes bytes value := by
  refine (takes_take hlength).bind_last ?_
  rw [hvalue]
  exact takes_pure value

theorem readU8_takes (value : UInt8) : readU8.Takes [value] value := by
  have hvalue : UInt8.ofNat (leNat [value]) = value := by simp [leNat]
  exact takes_field (show [value].length = 1 from rfl) hvalue

theorem readU16_takes (value : UInt16) : readU16.Takes (toLe 2 value.toNat) value := by
  refine takes_field (toLe_length 2 _) ((getU16Le_eq_iff (toLe_length 2 _)).mpr ?_).symm
  rw [leNat_toLe]
  exact Nat.mod_eq_of_lt value.toNat_lt

theorem readU32_takes (value : UInt32) : readU32.Takes (toLe 4 value.toNat) value := by
  refine takes_field (toLe_length 4 _) ((getU32Le_eq_iff (toLe_length 4 _)).mpr ?_).symm
  rw [leNat_toLe]
  exact Nat.mod_eq_of_lt value.toNat_lt

theorem readUnits_takes (turns : List ℕ) {units : List UInt16}
    (hturns : turns.length = units.length) :
    (turns.mapM fun _ => readU16).Takes (putUnits units) units := by
  induction turns generalizing units with
  | nil =>
    obtain rfl := List.length_eq_zero_iff.mp hturns.symm
    exact takes_pure []
  | cons turn turns ih =>
    cases units with
    | nil => cases hturns
    | cons unit units =>
      rw [List.mapM_cons]
      exact (readU16_takes unit).bind ((ih (Nat.succ.inj hturns)).bind_last (takes_pure _))

theorem readUtf16_takes (invalid : Error) (text : String) :
    (readUtf16 invalid (encodeUtf16 text.toList).length).Takes
      (putUnits (encodeUtf16 text.toList)) text := by
  refine (readUnits_takes _ List.length_range).bind_last ?_
  rw [fromUtf16_eq_some_iff.mpr rfl]
  exact takes_pure text

theorem readBVarchar_takes (invalid : Error) (name : ShortText) :
    (readBVarchar invalid).Takes name.bytes name.text := by
  have hshort := name.short
  refine (readU8_takes _).bind ?_
  rw [UInt8.toNat_ofNat', Nat.mod_eq_of_lt (by omega)]
  exact readUtf16_takes invalid name.text

theorem readUsVarchar_takes (invalid : Error) (name : LongText) :
    (readUsVarchar invalid).Takes name.bytes name.text := by
  have hshort := name.short
  have hlength : (UInt16.ofNat (encodeUtf16 name.text.toList).length).toNat =
      (encodeUtf16 name.text.toList).length := by
    rw [UInt16.toNat_ofNat', Nat.mod_eq_of_lt (by omega)]
  have hcount := readU16_takes (UInt16.ofNat (encodeUtf16 name.text.toList).length)
  rw [hlength] at hcount
  refine hcount.bind ?_
  rw [hlength]
  exact readUtf16_takes invalid name.text

/-- A body is parsed to what its front gives. -/
theorem Takes.parse {cursor : Cursor α} {bytes : List UInt8} {value : α}
    (htakes : cursor.Takes bytes value) (rest : List UInt8) (env : Context) :
    (parse cursor (bytes ++ rest)).Reads env [] value := by
  have hrun : StateT.run cursor (bytes ++ rest) = .ok (value, rest) := htakes rest
  rw [Cursor.parse, hrun]
  exact ret_reads value

end Cursor

section Columns

/-- A column as a server announces it. A description may take any bytes that are read as
it; behind that of a large value of the old kind stands the name of its table, in parts. -/
structure ServedColumn where
  userType : UInt32
  flags : UInt16
  ty : TypeInfo
  description : List UInt8
  described : ∀ env, TypeInfo.decode.Reads env description ty
  table : List LongText
  parts : table.length ≤ 255
  name : ShortText

/-- The large values of the old kind. -/
def TypeInfo.isLegacy : TypeInfo → Bool
  | .varLenSized cx => cx.type = .text ∨ cx.type = .ntext ∨ cx.type = .image
  | _ => false

namespace ServedColumn

/-- The name of the table, where there is one. -/
def tableBytes (column : ServedColumn) : List UInt8 :=
  if column.ty.isLegacy then
    UInt8.ofNat column.table.length :: column.table.flatMap LongText.bytes
  else []

/-- The column without its name, as a return value carries it too. -/
def baseBytes (column : ServedColumn) : List UInt8 :=
  toLe 4 column.userType.toNat ++ (toLe 2 column.flags.toNat ++
    (column.description ++ column.tableBytes))

def bytes (column : ServedColumn) : List UInt8 := column.baseBytes ++ column.name.bytes

/-- What a client keeps of the column. -/
def base (column : ServedColumn) : BaseMetaDataColumn where
  flags := column.flags &&& columnFlagMask
  ty := column.ty
  tableName := none

def column (column : ServedColumn) : MetaDataColumn where
  base := column.base
  colName := column.name.text

variable {env : Context}

theorem skipTableName_reads (column : ServedColumn) :
    column.ty.skipTableName.Reads env column.tableBytes () := by
  obtain ⟨_, _, ty, _, _, table, hparts, _⟩ := column
  have hnone : (ret () : Reader Unit).Reads env [] () := ret_reads ()
  cases ty with
  | varLenSized cx =>
    by_cases hlegacy : cx.type = .text ∨ cx.type = .ntext ∨ cx.type = .image
    · have hcount : readU8.Reads env [UInt8.ofNat table.length] _ := readU8_put _
      have hnames : (readUsVarchar.times table.length).Reads env (table.flatMap LongText.bytes)
          (table.map LongText.text) := by
        rw [reads_times]
        refine ⟨List.length_map _, table.map LongText.bytes, List.flatMap_def, ?_⟩
        rw [List.forall₂_map_left_iff, List.forall₂_map_right_iff, List.forall₂_same]
        exact fun name _ => name.reads
      have hlength : (UInt8.ofNat table.length).toNat = table.length := by
        rw [UInt8.toNat_ofNat', Nat.mod_eq_of_lt (by omega)]
      simp only [TypeInfo.skipTableName, tableBytes, TypeInfo.isLegacy, hlegacy, if_true,
        decide_true]
      refine hcount.bind ?_
      rw [hlength]
      exact hnames.bind_last hnone
    · simpa only [TypeInfo.skipTableName, tableBytes, TypeInfo.isLegacy, hlegacy, if_false,
        decide_false, Bool.false_eq_true, pure_eq] using hnone
  | _ => exact hnone

theorem base_reads (column : ServedColumn) :
    BaseMetaDataColumn.decode.Reads env column.baseBytes column.base := by
  refine (readU32Le_reads.mpr rfl).bind ((readU16Le_reads.mpr rfl).bind ?_)
  exact (column.described env).bind (column.skipTableName_reads.bind_last (ret_reads _))

theorem reads (column : ServedColumn) :
    MetaDataColumn.decode.Reads env column.bytes column.column :=
  column.base_reads.bind (column.name.reads.bind_last (ret_reads _))

end ServedColumn

/-- The body of column metadata, for at least one column. -/
def columnsBody (columns : List ServedColumn) : List UInt8 :=
  toLe 2 columns.length ++ columns.flatMap ServedColumn.bytes

def metadataOf (columns : List ServedColumn) : TokenColMetaData where
  columns := columns.map ServedColumn.column

theorem columnsBody_reads {columns : List ServedColumn} (hcount : columns.length < 65535)
    (env : Context) :
    TokenColMetaData.decode.Reads env (columnsBody columns) (metadataOf columns) := by
  have hlength : (UInt16.ofNat columns.length).toNat = columns.length := by
    rw [UInt16.toNat_ofNat', Nat.mod_eq_of_lt (by omega)]
  have hread : readU16Le.Reads env (toLe 2 columns.length) (UInt16.ofNat columns.length) := by
    rw [readU16Le_reads, hlength]
  have hcolumns : (MetaDataColumn.decode.times columns.length).Reads env
      (columns.flatMap ServedColumn.bytes) (columns.map ServedColumn.column) := by
    rw [reads_times]
    refine ⟨List.length_map _, columns.map ServedColumn.bytes, List.flatMap_def, ?_⟩
    rw [List.forall₂_map_left_iff, List.forall₂_map_right_iff, List.forall₂_same]
    exact fun column _ => column.reads
  have hsome : UInt16.ofNat columns.length < 0xffff := by
    rw [UInt16.lt_iff_toNat_lt, hlength]
    exact hcount
  refine hread.bind ?_
  rw [if_pos hsome, hlength]
  exact hcolumns.bind_last (ret_reads _)

end Columns

section Rows

/-- A nullable date and time takes four bytes or eight. -/
def TypeInfo.DatetimeWidth (ty : TypeInfo) : Prop :=
  ∀ cx, ty = .varLenSized cx → cx.type = .datetimen → cx.len = 4 ∨ cx.len = 8

/-- The NULL of a column as a client sees it. Only a plain row tells the NULL of a
`smalldatetime` from that of a `datetime`. -/
def BaseMetaDataColumn.nullIn (packed : Bool) (column : BaseMetaDataColumn) : ColumnData :=
  match packed, column.ty with
  | false, .varLenSized cx =>
    if cx.type = .datetimen ∧ cx.len = 4 then .smallDateTime none else column.nullValue
  | _, _ => column.nullValue

namespace Cell

/-- The value that a client is to see. -/
def given (packed : Bool) (column : MetaDataColumn) : Cell → ColumnData
  | value _ data => data
  | null => column.base.nullIn packed

variable [EncodingRs]

/-- The cell can be sent in the column: a value in bytes that encode it, a NULL in a
packed row, or in a plain one if the type has a NULL there. -/
def Stands (env : Context) (packed : Bool) (column : MetaDataColumn) : Cell → Prop
  | value bytes data => (ColumnData.decode column.base.ty).Reads env bytes data
  | null => packed = true ∨ column.base.ty.nullForm.isSome ∧ column.base.ty.DatetimeWidth

end Cell

/-- The values of a row as a client sees them. -/
def givenValues (packed : Bool) (columns : List MetaDataColumn) (cells : List Cell) :
    List ColumnData :=
  List.zipWith (Cell.given packed) columns cells

variable [EncodingRs] {env : Context}

theorem nullIn_reads {column : BaseMetaDataColumn} {bytes : List UInt8}
    (hform : column.ty.nullForm = some bytes) (hwidth : column.ty.DatetimeWidth) :
    (ColumnData.decode column.ty).Reads env bytes (column.nullIn false) := by
  by_cases hnarrow : ∃ cx, column.ty = .varLenSized cx ∧ cx.type = .datetimen ∧ cx.len = 4
  · obtain ⟨⟨ty, len, collation⟩, hty, hdatetimen, hlen⟩ := hnarrow
    obtain ⟨flags, columnTy, tableName⟩ := column
    cases hty
    cases hdatetimen
    cases hlen
    obtain rfl := Option.some.inj hform
    rfl
  · have hnull : column.nullIn false = column.nullValue := by
      obtain ⟨flags, ty, tableName⟩ := column
      cases ty with
      | varLenSized cx => exact if_neg fun h => hnarrow ⟨cx, rfl, h⟩
      | _ => rfl
    rw [hnull]
    refine null_reads hform ?_
    intro cx hty hdatetimen
    rcases hwidth cx hty hdatetimen with hlen | hlen
    · exact (hnarrow ⟨cx, hty, hdatetimen, hlen⟩).elim
    · rw [hlen]
      rfl

theorem Cell.plain_reads {column : MetaDataColumn} {cell : Cell}
    (hstands : cell.Stands env false column) :
    (ColumnData.decode column.base.ty).Reads env (cell.rowBytes column.base.ty)
      (cell.given false column) := by
  cases cell with
  | value bytes data => exact hstands
  | null =>
    obtain hpacked | ⟨hform, hwidth⟩ := hstands
    · cases hpacked
    · obtain ⟨bytes, hbytes⟩ := Option.isSome_iff_exists.mp hform
      rw [rowBytes, hbytes]
      exact nullIn_reads hbytes hwidth

theorem plainValues_reads {columns : List MetaDataColumn} {cells : List Cell}
    (hcells : List.Forall₂ (fun column cell => Cell.Stands env false column cell) columns cells) :
    (decodeValues (columns.map fun column => column.base.ty)).Reads env
      (rowEncoding columns cells) (givenValues false columns cells) := by
  induction hcells with
  | nil => rfl
  | cons hcell _ ih => exact (Cell.plain_reads hcell).bind (ih.bind_last (ret_reads _))

theorem packedValues_reads {columns : List MetaDataColumn} {cells : List Cell}
    (hcells : List.Forall₂ (fun column cell => Cell.Stands env true column cell) columns cells)
    {bitmap : List UInt8} {i : ℕ} (hmarks : Marks bitmap i cells) :
    (decodePackedValues bitmap i columns).Reads env (cells.flatMap Cell.packedBytes)
      (givenValues true columns cells) := by
  induction hcells generalizing i with
  | nil => rfl
  | @cons column cell columns cells hcell _ ih =>
    have hrest : ((decodePackedValues bitmap (i + 1) columns).bind fun values =>
        ret (cell.given true column :: values)).Reads env (cells.flatMap Cell.packedBytes)
          (givenValues true (column :: columns) (cell :: cells)) :=
      (ih hmarks.tail).bind_last (ret_reads _)
    rw [decodePackedValues_cons hmarks.head]
    cases cell with
    | value bytes data => exact Reads.bind hcell hrest
    | null => exact hrest

/-- The bytes of a row behind its type. -/
def rowBody (packed : Bool) (columns : List MetaDataColumn) (cells : List Cell) : List UInt8 :=
  if packed then packedEncoding cells else rowEncoding columns cells

theorem rowBody_reads {metadata : TokenColMetaData} (hmeta : env.lastMeta = some metadata)
    {packed : Bool} {cells : List Cell}
    (hcells : List.Forall₂ (fun column cell => Cell.Stands env packed column cell)
      metadata.columns cells) :
    (if packed then TokenRow.decodeNbc else TokenRow.decode).Reads env
      (rowBody packed metadata.columns cells)
      { data := givenValues packed metadata.columns cells } := by
  cases packed with
  | false => exact (tokenRow_reads hmeta).mpr (plainValues_reads hcells)
  | true =>
    have hbitmap : (nullBitmap (cells.map Cell.isNull)).length =
        (metadata.columns.length + 7) / 8 := by
      rw [nullBitmap_length, List.length_map, hcells.length_eq]
    exact (decodeNbc_reads hmeta hbitmap).mpr (packedValues_reads hcells (marks_nullBitmap cells))

end Rows

/-- The kinds of the tokens that count rows. -/
inductive DoneKind where
  | done
  | inProc
  | proc
  deriving DecidableEq, Repr

/-- The text and the place of an error or an information. -/
structure ServedMessage where
  code : UInt32
  state : UInt8
  class_ : UInt8
  message : LongText
  server : ShortText
  procedure : ShortText
  line : UInt32

namespace ServedMessage

/-- The line of a message takes four bytes from a version on. -/
def wideLine (version : FeatureLevel) : Bool :=
  FeatureLevel.sqlServer2005.toU32 ≤ version.toU32

def body (message : ServedMessage) (version : FeatureLevel) : List UInt8 :=
  toLe 4 message.code.toNat ++ ([message.state] ++ ([message.class_] ++
    (message.message.bytes ++ (message.server.bytes ++ (message.procedure.bytes ++
      if wideLine version then toLe 4 message.line.toNat else toLe 2 message.line.toNat)))))

/-- The message fits its length field, and its line the field for that. -/
def Fits (message : ServedMessage) (version : FeatureLevel) : Prop :=
  (message.body version).length ≤ 65535 ∧ (wideLine version ∨ message.line.toNat < 65536)

def received (message : ServedMessage) : TokenError where
  code := message.code
  state := message.state
  class_ := message.class_
  message := message.message.text
  server := message.server.text
  procedure := message.procedure.text
  line := message.line

def receivedInfo (message : ServedMessage) : TokenInfo where
  number := message.code
  state := message.state
  class_ := message.class_
  message := message.message.text
  server := message.server.text
  procedure := message.procedure.text
  line := message.line

theorem reads {message : ServedMessage} {env : Context} (hfits : message.Fits env.version) :
    decodeErrorInfoBody.Reads env
      (toLe 2 (message.body env.version).length ++ message.body env.version)
      message.received := by
  obtain ⟨hbody, hline⟩ := hfits
  have hlength : (UInt16.ofNat (message.body env.version).length).toNat =
      (message.body env.version).length := by
    rw [UInt16.toNat_ofNat', Nat.mod_eq_of_lt (by omega)]
  have hread : readU16Le.Reads env (toLe 2 (message.body env.version).length)
      (UInt16.ofNat (message.body env.version).length) := by
    rw [readU16Le_reads, hlength]
  refine hread.bind ((readExact_reads.mpr ⟨hlength.symm, rfl⟩).bind_last ?_)
  rw [← List.append_nil (message.body env.version)]
  refine Cursor.Takes.parse ?_ [] env
  refine (Cursor.readU32_takes _).bind ((Cursor.readU8_takes _).bind ((Cursor.readU8_takes _).bind
    ((Cursor.readUsVarchar_takes _ _).bind ((Cursor.readBVarchar_takes _ _).bind
      ((Cursor.readBVarchar_takes _ _).bind ?_)))))
  by_cases hwide : FeatureLevel.sqlServer2005.toU32 ≤ env.version.toU32
  · simp only [wideLine, hwide, decide_true, if_true]
    exact (Cursor.readU32_takes _).bind_last (Cursor.takes_pure _)
  · have hshort : message.line.toNat < 65536 := by simpa [wideLine, hwide] using hline
    have hnarrow : message.line.toUInt16.toNat = message.line.toNat := by
      rw [UInt32.toNat_toUInt16]
      exact Nat.mod_eq_of_lt hshort
    have hback : message.line.toUInt16.toUInt32 = message.line := by
      apply UInt32.toNat.inj
      rw [UInt16.toNat_toUInt32, hnarrow]
    have hline := Cursor.readU16_takes message.line.toUInt16
    rw [hnarrow] at hline
    simp only [wideLine, hwide, decide_false, if_false, Bool.false_eq_true]
    refine hline.bind_last ((Cursor.takes_pure _).bind_last ?_)
    rw [hback]
    exact Cursor.takes_pure _

end ServedMessage

/-- A change of the session is read from its kind and the fields of that kind; bytes
behind these are passed over. -/
theorem envChange_reads (env : Context) (kind : UInt8) (ty : EnvChangeTy)
    {fields : List UInt8} {change : TokenEnvChange} (hkind : EnvChangeTy.tryFrom kind = some ty)
    (hfields : (TokenEnvChange.parseBody ty).Takes fields change) (rest : List UInt8)
    (hfits : (kind :: (fields ++ rest)).length ≤ 65535) :
    TokenEnvChange.decode.Reads env
      (toLe 2 (kind :: (fields ++ rest)).length ++ kind :: (fields ++ rest)) change := by
  have hlength : (UInt16.ofNat (kind :: (fields ++ rest)).length).toNat =
      (kind :: (fields ++ rest)).length := by
    rw [UInt16.toNat_ofNat', Nat.mod_eq_of_lt (by omega)]
  have hread : readU16Le.Reads env (toLe 2 (kind :: (fields ++ rest)).length)
      (UInt16.ofNat (kind :: (fields ++ rest)).length) := by
    rw [readU16Le_reads, hlength]
  refine hread.bind ((readExact_reads.mpr ⟨hlength.symm, rfl⟩).bind_last ?_)
  rw [← List.cons_append]
  refine Cursor.Takes.parse ?_ rest env
  refine (Cursor.readU8_takes kind).bind ?_
  rw [hkind]
  exact hfields

/-- The changes of the session that an answer may tell of: another database, and the
transactions. -/
inductive ServedChange where
  | database (new old : ShortText)
  | beginTransaction (desc : Vector UInt8 8)
  | commitTransaction (desc : Vector UInt8 8)
  | rollbackTransaction (desc : Vector UInt8 8)

namespace ServedChange

/-- The new value stands in front of the old one. -/
def body : ServedChange → List UInt8
  | database new old => 1 :: (new.bytes ++ old.bytes)
  | beginTransaction desc => 8 :: 8 :: (desc.toList ++ [0])
  | commitTransaction desc => 9 :: 0 :: 8 :: desc.toList
  | rollbackTransaction desc => 10 :: 0 :: 8 :: desc.toList

def received : ServedChange → TokenEnvChange
  | database new old => .database old.text new.text
  | beginTransaction desc => .beginTransaction desc
  | commitTransaction _ => .commitTransaction
  | rollbackTransaction _ => .rollbackTransaction

theorem body_length (change : ServedChange) : change.body.length ≤ 65535 := by
  cases change with
  | database new old =>
    have hnew := new.short
    have hold := old.short
    simp only [body, ShortText.bytes, List.length_append, List.length_cons, putUnits_length]
    omega
  | _ => simp [body]

theorem desc_takes (desc : Vector UInt8 8) :
    (TokenEnvChange.parseBody .beginTransaction).Takes (8 :: desc.toList)
      (.beginTransaction desc) := by
  have hdesc : (Vector.ofFn fun i : Fin 8 => desc.toList.getD i 0) = desc := by
    ext i hi
    simp
  refine (Cursor.readU8_takes 8).bind ((Cursor.takes_take desc.length_toList).bind_last ?_)
  rw [hdesc]
  exact Cursor.takes_pure _

theorem reads (change : ServedChange) (env : Context) :
    TokenEnvChange.decode.Reads env (toLe 2 change.body.length ++ change.body)
      change.received := by
  have hfits := change.body_length
  cases change with
  | database new old =>
    have hnames : (TokenEnvChange.parseBody .database).Takes (new.bytes ++ old.bytes)
        (.database old.text new.text) :=
      (Cursor.readBVarchar_takes .utf16 new).bind
        ((Cursor.readBVarchar_takes .utf16 old).bind_last (Cursor.takes_pure _))
    have hreads := envChange_reads env 1 .database rfl hnames [] (by simpa [body] using hfits)
    rwa [List.append_nil] at hreads
  | beginTransaction desc =>
    exact envChange_reads env 8 .beginTransaction rfl (desc_takes desc) [0] hfits
  | commitTransaction desc =>
    exact envChange_reads env 9 .commitTransaction rfl (Cursor.takes_pure _)
      (0 :: 8 :: desc.toList) hfits
  | rollbackTransaction desc =>
    exact envChange_reads env 10 .rollbackTransaction rfl (Cursor.takes_pure _)
      (0 :: 8 :: desc.toList) hfits

end ServedChange

/-- What a server sends in an answer. -/
inductive Served where
  | columns (announced : List ServedColumn)
  | row (packed : Bool) (cells : List Cell)
  | done (kind : DoneKind) (status curCmd : UInt16) (rows : UInt64)
  | returnStatus (status : UInt32)
  | returnValue (ordinal : UInt16) (name : ShortText) (udf : Bool) (column : ServedColumn)
    (cell : Cell)
  | error (message : ServedMessage)
  | info (message : ServedMessage)
  | change (told : ServedChange)
  | order (indexes : List UInt16)

/-- The columns of the result set that is open. -/
def Context.openColumns (context : Context) : List MetaDataColumn :=
  (context.lastMeta.map TokenColMetaData.columns).getD []

def DoneKind.byte : DoneKind → UInt8
  | done => 0xFD
  | inProc => 0xFF
  | proc => 0xFE

def DoneKind.token (kind : DoneKind) (done : TokenDone) : ReceivedToken :=
  match kind with
  | .done => .done done
  | inProc => .doneInProc done
  | proc => .doneProc done

namespace Served

/-- The number of rows takes eight bytes from a version on. -/
def wideRows (version : FeatureLevel) : Bool := version.doneRowCountBytes = 8

/-- The bytes of an item, where the session stands at a context. -/
def bytes (context : Context) : Served → List UInt8
  | columns announced => 0x81 :: columnsBody announced
  | row packed cells => (if packed then 0xD2 else 0xD1) :: rowBody packed context.openColumns cells
  | done kind status curCmd rows =>
    kind.byte :: (toLe 2 status.toNat ++ (toLe 2 curCmd.toNat ++
      if wideRows context.version then toLe 8 rows.toNat else toLe 4 rows.toNat))
  | returnStatus status => 0x79 :: toLe 4 status.toNat
  | returnValue ordinal name udf column cell =>
    0xAC :: (toLe 2 ordinal.toNat ++ (name.bytes ++ ((if udf then 2 else 1) ::
      (column.baseBytes ++ cell.rowBytes column.ty))))
  | error message =>
    0xAA :: (toLe 2 (message.body context.version).length ++ message.body context.version)
  | info message =>
    0xAB :: (toLe 2 (message.body context.version).length ++ message.body context.version)
  | change told => 0xE3 :: (toLe 2 told.body.length ++ told.body)
  | order indexes => 0xA9 :: (toLe 2 (2 * indexes.length) ++ putUnits indexes)

def returned (ordinal : UInt16) (name : ShortText) (udf : Bool) (column : ServedColumn)
    (cell : Cell) : TokenReturnValue where
  paramOrdinal := ordinal
  paramName := name.text
  udf := udf
  metadata := column.base
  value := cell.given false column.column

/-- The token that a client is to read. -/
def token (context : Context) : Served → ReceivedToken
  | columns announced => .newResultset (metadataOf announced)
  | row packed cells => .row { data := givenValues packed context.openColumns cells }
  | done kind status curCmd rows =>
    kind.token { status := .fromBitsTruncate status, curCmd := curCmd, doneRows := rows }
  | returnStatus status => .returnStatus status
  | returnValue ordinal name udf column cell => .returnValue (returned ordinal name udf column cell)
  | error message => .error message.received
  | info message => .info message.receivedInfo
  | change told => .envChange told.received
  | order indexes => .order { columnIndexes := indexes }

/-- Where the session stands behind an item. -/
def after (context : Context) : Served → Context
  | columns announced => context.setLastMeta (metadataOf announced)
  | change (.beginTransaction desc) => context.setTransactionDescriptor desc
  | change (.commitTransaction _) => context.setTransactionDescriptor (Vector.replicate 8 0)
  | change (.rollbackTransaction _) => context.setTransactionDescriptor (Vector.replicate 8 0)
  | _ => context

variable {context : Context}

theorem done_reads {status curCmd : UInt16} {rows : UInt64}
    (hrows : wideRows context.version ∨ rows.toNat < 2 ^ 32) :
    TokenDone.decode.Reads context
      (toLe 2 status.toNat ++ (toLe 2 curCmd.toNat ++
        if wideRows context.version then toLe 8 rows.toNat else toLe 4 rows.toNat))
      { status := .fromBitsTruncate status, curCmd := curCmd, doneRows := rows } := by
  have hwidth : context.version.doneRowCountBytes = 8 ∨ context.version.doneRowCountBytes = 4 := by
    unfold FeatureLevel.doneRowCountBytes
    split_ifs
    · exact .inl rfl
    · exact .inr rfl
  refine (readU16Le_reads.mpr rfl).bind ((readU16Le_reads.mpr rfl).bind ?_)
  simp only [wideRows] at hrows ⊢
  rcases hwidth with hwidth | hwidth
  · simp only [hwidth, decide_true, if_true, Reader.context, bind_eq, Program.bind, reads_ask,
      UInt8.reduceToNat]
    exact (readU64Le_reads.mpr rfl).bind_last (ret_reads _)
  · have hfour : ¬ (4 : UInt8) = 8 := by decide
    simp only [hwidth, hfour, decide_false, Bool.false_eq_true, false_or, if_false, Reader.context,
      bind_eq, Program.bind, reads_ask, UInt8.reduceToNat] at hrows ⊢
    have hsame : rows.toUInt32.toNat = rows.toNat := Nat.mod_eq_of_lt hrows
    have hback : rows.toUInt32.toUInt64 = rows := by
      apply UInt64.toNat.inj
      rw [UInt32.toNat_toUInt64, hsame]
    have hread : readU32Le.Reads context (toLe 4 rows.toNat) rows.toUInt32 := by
      rw [readU32Le_reads, hsame]
    refine (hread.bind_last (ret_reads _)).bind_last ?_
    rw [hback]
    exact ret_reads _

theorem order_reads {indexes : List UInt16} (hfits : 2 * indexes.length ≤ 65535) :
    TokenOrder.decode.Reads context (toLe 2 (2 * indexes.length) ++ putUnits indexes)
      { columnIndexes := indexes } := by
  have hlength : (UInt16.ofNat (2 * indexes.length)).toNat = 2 * indexes.length := by
    rw [UInt16.toNat_ofNat', Nat.mod_eq_of_lt (by omega)]
  have hread : readU16Le.Reads context (toLe 2 (2 * indexes.length))
      (UInt16.ofNat (2 * indexes.length)) := by
    rw [readU16Le_reads, hlength]
  have heven : UInt16.ofNat (2 * indexes.length) % 2 = 0 := by
    apply UInt16.toNat.inj
    rw [UInt16.toNat_mod, hlength]
    exact Nat.mul_mod_right 2 _
  refine hread.bind ?_
  rw [if_neg (not_not.mpr heven), hlength, Nat.mul_div_cancel_left _ (by decide)]
  exact (readUnits_reads.mpr ⟨rfl, rfl⟩).bind_last (ret_reads _)

theorem receive_token (item : Served) : context.receive (item.token context) =
    .ok (item.after context) := by
  cases item with
  | done kind status curCmd rows => cases kind <;> rfl
  | change told => cases told <;> rfl
  | _ => rfl

variable [EncodingRs]

/-- The item can be sent where the session stands: counts fit their fields, and the cells of
a row stand in the columns of the result set that is open. -/
def Fits (context : Context) : Served → Prop
  | columns announced => announced.length < 65535
  | row packed cells =>
    ∃ metadata, context.lastMeta = some metadata ∧
      List.Forall₂ (fun column cell => Cell.Stands context packed column cell)
        metadata.columns cells
  | done _ _ _ rows => wideRows context.version ∨ rows.toNat < 2 ^ 32
  | returnValue _ _ _ column cell => cell.Stands context false column.column
  | error message => message.Fits context.version
  | info message => message.Fits context.version
  | order indexes => 2 * indexes.length ≤ 65535
  | _ => True

theorem token_reads {byte : UInt8} {ty : TokenType} {body : List UInt8} {token : ReceivedToken}
    (hty : TokenType.tryFrom byte = some ty) (hbody : ty.decodeBody.Reads context body token) :
    ReceivedToken.decode.Reads context (byte :: body) token := by
  refine (readU8_put byte).bind ?_
  rw [hty]
  exact hbody

theorem row_reads {packed : Bool} {cells : List Cell}
    (hfits : (row packed cells).Fits context) :
    ReceivedToken.decode.Reads context ((row packed cells).bytes context)
      ((row packed cells).token context) := by
  obtain ⟨metadata, hmeta, hcells⟩ := hfits
  have hopen : context.openColumns = metadata.columns := by rw [Context.openColumns, hmeta]; rfl
  have hbody := rowBody_reads hmeta hcells
  simp only [bytes, token, hopen]
  cases packed with
  | false => exact token_reads rfl (hbody.bind_last (ret_reads _))
  | true => exact token_reads rfl (hbody.bind_last (ret_reads _))

theorem returnValue_reads {ordinal : UInt16} {name : ShortText} {udf : Bool}
    {column : ServedColumn} {cell : Cell} (hcell : cell.Stands context false column.column) :
    TokenReturnValue.decode.Reads context
      (toLe 2 ordinal.toNat ++ (name.bytes ++ ((if udf then 2 else 1) ::
        (column.baseBytes ++ cell.rowBytes column.ty))))
      (returned ordinal name udf column cell) := by
  refine (readU16Le_reads.mpr rfl).bind (name.reads.bind ?_)
  have hvalue : (ColumnData.decode column.ty).Reads context (cell.rowBytes column.ty)
      (cell.given false column.column) := Cell.plain_reads hcell
  cases udf with
  | false =>
    refine (readU8_put 1).bind ?_
    exact column.base_reads.bind (hvalue.bind_last (ret_reads _))
  | true =>
    refine (readU8_put 2).bind ?_
    exact column.base_reads.bind (hvalue.bind_last (ret_reads _))

/-- An item is read as its token. -/
theorem reads {item : Served} (hfits : item.Fits context) :
    ReceivedToken.decode.Reads context (item.bytes context) (item.token context) := by
  cases item with
  | columns announced =>
    exact token_reads rfl ((columnsBody_reads hfits context).bind_last (ret_reads _))
  | row packed cells => exact row_reads hfits
  | done kind status curCmd rows =>
    have hbody := @done_reads context status curCmd rows hfits
    cases kind with
    | done => exact token_reads rfl (hbody.bind_last (ret_reads _))
    | inProc => exact token_reads rfl (hbody.bind_last (ret_reads _))
    | proc => exact token_reads rfl (hbody.bind_last (ret_reads _))
  | returnStatus status =>
    exact token_reads rfl ((readU32Le_reads.mpr rfl).bind_last (ret_reads _))
  | returnValue ordinal name udf column cell =>
    exact token_reads rfl ((returnValue_reads hfits).bind_last (ret_reads _))
  | error message =>
    exact token_reads rfl ((ServedMessage.reads hfits).bind_last (ret_reads _))
  | info message =>
    have hbody : TokenInfo.decode.Reads context _ message.receivedInfo :=
      (ServedMessage.reads hfits).bind_last (ret_reads _)
    exact token_reads rfl (hbody.bind_last (ret_reads _))
  | change told => exact token_reads rfl ((told.reads context).bind_last (ret_reads _))
  | order indexes => exact token_reads rfl ((order_reads hfits).bind_last (ret_reads _))

end Served

end Tiberius
