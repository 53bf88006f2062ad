import Tiberius.Encoders
import Tiberius.Writing.Sequence

/-!
Table-valued parameters. The columns of the table come from the server and the rows
from the caller, and a row on the wire says nothing about its length: it ends where
the columns end. The encoder looks up the column of each cell and counts no row.
-/

namespace Tiberius

open Writing Writer

/-- `str::split_once`. -/
def splitOnce (text : String) (separator : Char) : Option (String × String) :=
  match text.toList.dropWhile (· ≠ separator) with
  | [] => none
  | _ :: rest =>
    some (String.ofList (text.toList.takeWhile (· ≠ separator)), String.ofList rest)

structure TypeInfoTvp where
  schemaName : String
  dbTypeName : String
  columns : Option (List MetaDataColumn)
  data : List (List ColumnData)

/-- The nullable type of variable length for a type of fixed length. -/
def fixedToVarLen : FixedLenType → Option TypeInfo
  | .int1 => some (.varLenSized ⟨.intn, 1, none⟩)
  | .bit => some (.varLenSized ⟨.bitn, 1, none⟩)
  | .int2 => some (.varLenSized ⟨.intn, 2, none⟩)
  | .int4 => some (.varLenSized ⟨.intn, 4, none⟩)
  | .datetime4 => some (.varLenSized ⟨.datetimen, 4, none⟩)
  | .float4 => some (.varLenSized ⟨.floatn, 4, none⟩)
  | .money => some (.varLenSized ⟨.money, 8, none⟩)
  | .datetime => some (.varLenSized ⟨.datetimen, 8, none⟩)
  | .float8 => some (.varLenSized ⟨.floatn, 8, none⟩)
  | .money4 => some (.varLenSized ⟨.money, 4, none⟩)
  | .int8 => some (.varLenSized ⟨.intn, 8, none⟩)
  | .null => none

namespace TypeInfoTvp

/-- `TypeInfoTvp::new`. -/
def new (typeName : String) (rows : List (List ColumnData)) : TypeInfoTvp :=
  match splitOnce typeName '.' with
  | some (schemaName, dbTypeName) =>
    { schemaName := schemaName, dbTypeName := dbTypeName, columns := none, data := rows }
  | none => { schemaName := "", dbTypeName := typeName, columns := none, data := rows }

def nullableColumn (column : MetaDataColumn) : MetaDataColumn :=
  match column.base.ty with
  | .fixedLen ty =>
    match fixedToVarLen ty with
    | some ty => { column with base := { column.base with ty := ty } }
    | none => column
  | _ => column

def withMetadata (tvp : TypeInfoTvp) (metadata : List MetaDataColumn) : TypeInfoTvp :=
  { tvp with columns := some (metadata.map nullableColumn) }

/-- A table as `build_rpc_params` makes it, with the columns that the server has
returned, if it has returned any. -/
def resolved (typeName : String) (rows : List (List ColumnData))
    (colsMetadata : Option (List MetaDataColumn)) : TypeInfoTvp :=
  match colsMetadata with
  | some metadata => (new typeName rows).withMetadata metadata
  | none => new typeName rows

/-- The columns of a table: no name is sent with them. -/
def encodeColumn (column : MetaDataColumn) : Writer Unit := do
  putU32Le 0
  column.base.encode
  putField (encodeBVarchar "")

/-- The columns behind their number, or the token for a table without them. -/
def encodeColumns (tvp : TypeInfoTvp) : Writer Unit :=
  match tvp.columns with
  | some columns => do
    putU16Le (UInt16.ofNat columns.length)
    Written.all (columns.map encodeColumn)
  | none => putU16Le 0xFFFF

/-- What stands in front of the rows. -/
def header (tvp : TypeInfoTvp) : Writer Unit := do
  putU8 0xF3
  putField (encodeBVarchar "")
  putField (encodeBVarchar tvp.schemaName)
  putField (encodeBVarchar tvp.dbTypeName)
  tvp.encodeColumns
  putU8 0

theorem varLenContext_ne_panic (ctx : VarLenContext) : ctx.encode.result ≠ .error .panic := by
  refine Written.result_bind_ne (fun h => by cases h) fun _ => ?_
  refine Written.result_bind_ne ?_ fun _ => ?_
  · cases ctx.type <;> rintro ⟨⟩
  · cases ctx.collation with
    | none => rintro ⟨⟩
    | some collation => rintro ⟨⟩

theorem typeInfo_ne_panic (ty : TypeInfo) : ty.encode.result ≠ .error .panic := by
  cases ty with
  | fixedLen ty => rintro ⟨⟩
  | varLenSized ctx => exact varLenContext_ne_panic ctx
  | varLenSizedPrecision ty size precision scale => rintro ⟨⟩
  | xml schema size =>
    refine Written.result_bind_ne (fun h => by cases h) fun _ => ?_
    cases schema with
    | none => rintro ⟨⟩
    | some schema =>
      refine Written.result_bind_ne (fun h => by cases h) fun _ => ?_
      refine Written.result_bind_ne (putField_ne_panic _) fun _ => ?_
      exact Written.result_bind_ne (putField_ne_panic _) fun _ => putField_ne_panic _
  | udt info =>
    refine Written.result_bind_ne (fun h => by cases h) fun _ => ?_
    refine Written.result_bind_ne (fun h => by cases h) fun _ => ?_
    refine Written.result_bind_ne (putField_ne_panic _) fun _ => ?_
    refine Written.result_bind_ne (putField_ne_panic _) fun _ => ?_
    exact Written.result_bind_ne (putField_ne_panic _) fun _ => putField_ne_panic _

theorem base_ne_panic (base : BaseMetaDataColumn) : base.encode.result ≠ .error .panic := by
  refine Written.result_bind_ne (fun h => by cases h) fun _ => ?_
  refine Written.result_bind_ne (typeInfo_ne_panic base.ty) fun _ => ?_
  split_ifs
  · unfold encodeTableName
    dsimp only
    split_ifs <;> rintro ⟨⟩
  · rintro ⟨⟩

theorem encodeColumn_ok_iff (column : MetaDataColumn) :
    (encodeColumn column).result = .ok () ↔ column.base.encode.result = .ok () := by
  have hname : (putField (encodeBVarchar "")).result = .ok () := rfl
  refine Written.result_bind_eq_ok_iff.trans ((and_iff_right rfl).trans ?_)
  exact Written.result_bind_eq_ok_iff.trans (and_iff_left hname)

/-- The names and the types of the columns can be written. -/
structure HeaderFits (tvp : TypeInfoTvp) : Prop where
  schemaName : (encodeUtf16 tvp.schemaName.toList).length ≤ 255
  dbTypeName : (encodeUtf16 tvp.dbTypeName.toList).length ≤ 255
  columns : ∀ columns, tvp.columns = some columns → ∀ column ∈ columns,
    column.base.encode.result = .ok ()

theorem encodeColumns_ok_iff (tvp : TypeInfoTvp) : tvp.encodeColumns.result = .ok () ↔
    ∀ columns, tvp.columns = some columns → ∀ column ∈ columns,
      column.base.encode.result = .ok () := by
  unfold encodeColumns
  cases tvp.columns with
  | none => exact iff_of_true rfl fun _ h => by cases h
  | some columns =>
    refine Written.result_bind_eq_ok_iff.trans ((and_iff_right rfl).trans ?_)
    rw [Written.all_result_eq_ok_iff, List.forall_mem_map]
    simp only [encodeColumn_ok_iff]
    exact ⟨fun hall _ h => by cases h; exact hall, fun hall => hall columns rfl⟩

theorem encodeColumns_ne_panic (tvp : TypeInfoTvp) :
    tvp.encodeColumns.result ≠ .error .panic := by
  unfold encodeColumns
  cases tvp.columns with
  | none => rintro ⟨⟩
  | some columns =>
    refine Written.result_bind_ne (fun h => by cases h) fun _ hpanic => ?_
    refine Until.elim ?_ (Written.all_result_eq_error_iff.mp hpanic)
    rw [List.forall_mem_map]
    intro column _
    refine Written.result_bind_ne (fun h => by cases h) fun _ => ?_
    exact Written.result_bind_ne (base_ne_panic column.base) fun _ => putField_ne_panic _

theorem header_ok_iff (tvp : TypeInfoTvp) : tvp.header.result = .ok () ↔ tvp.HeaderFits := by
  have hempty : (putField (encodeBVarchar "")).result = .ok () := rfl
  have hlast : (putU8 0).result = .ok () := rfl
  unfold header
  simp only [Written.bind_eq, Written.result_bind_eq_ok_iff, hempty, hlast, putField_bVarchar_iff,
    encodeColumns_ok_iff, and_true, true_and]
  exact ⟨fun ⟨_, hschema, htype, hcolumns⟩ => ⟨hschema, htype, hcolumns⟩,
    fun hfits => ⟨rfl, hfits.schemaName, hfits.dbTypeName, hfits.columns⟩⟩

theorem header_ne_panic (tvp : TypeInfoTvp) : tvp.header.result ≠ .error .panic := by
  refine Written.result_bind_ne (fun h => by cases h) fun _ => ?_
  refine Written.result_bind_ne (putField_ne_panic _) fun _ => ?_
  refine Written.result_bind_ne (putField_ne_panic _) fun _ => ?_
  refine Written.result_bind_ne (putField_ne_panic _) fun _ => ?_
  exact Written.result_bind_ne tvp.encodeColumns_ne_panic fun _ => fun h => by cases h

section Rows

variable [StdLib] [EncodingRs]

/-- A cell under the column at its index; the index is out of bounds behind the last
column. -/
def encodeCell (tvp : TypeInfoTvp) (i : ℕ) (col : ColumnData) : Writer Unit :=
  match tvp.columns with
  | none => col.encode none
  | some metadata =>
    match metadata[i]? with
    | some column => col.encode (some column.base.ty)
    | none => .fail .panic

def encodeRow (tvp : TypeInfoTvp) (row : List ColumnData) : Writer Unit := do
  putU8 0x01
  Written.all (row.mapIdx tvp.encodeCell)

/-- `TypeInfoTvp::encode`. -/
def encode (tvp : TypeInfoTvp) : Writer Unit := do
  tvp.header
  Written.all (tvp.data.map tvp.encodeRow)
  putU8 0

/-- The types that the cells of a row are written under. Without columns there are
none to count. -/
def types (tvp : TypeInfoTvp) (row : List ColumnData) : List (Option TypeInfo) :=
  match tvp.columns with
  | none => row.map fun _ => none
  | some columns => columns.map fun column => some column.base.ty

def cells (tvp : TypeInfoTvp) (row : List ColumnData) : List (ColumnData × Option TypeInfo) :=
  row.zip (tvp.types row)

/-- The token of a row, and behind it as many cells as there are columns, each under
the type of its own. -/
def RowWritten (tvp : TypeInfoTvp) (row : List ColumnData) (bytes : List UInt8) : Prop :=
  row.length = (tvp.types row).length ∧ ∃ pieces,
    List.Forall₂ (fun cell piece => ColumnData.encode cell.1 cell.2 = .done piece ())
      (tvp.cells row) pieces ∧ bytes = 0x01 :: pieces.flatten

/-- A table that is refused with an error, or written with all its rows and the token
that ends it. -/
def Delivers (tvp : TypeInfoTvp) : Prop :=
  (∃ error, tvp.encode.result = .error (.error error)) ∨
    ∃ front rows, tvp.header = .done front () ∧
      tvp.encode = .done (front ++ rows.flatten ++ [0]) () ∧
        List.Forall₂ tvp.RowWritten tvp.data rows

def Accepted (cell : ColumnData × Option TypeInfo) : Prop :=
  (cell.1.encode cell.2).result = .ok ()

def Refused (cell : ColumnData × Option TypeInfo) : Prop :=
  ∃ error, (cell.1.encode cell.2).result = .error (.error error)

/-- A row with no cell too many, whose cells their columns accept. -/
def RowFits (tvp : TypeInfoTvp) (row : List ColumnData) : Prop :=
  row.length ≤ (tvp.types row).length ∧ ∀ cell ∈ tvp.cells row, Accepted cell

/-- A row with a cell that its column refuses, behind cells that theirs accept. -/
def RowRefused (tvp : TypeInfoTvp) (row : List ColumnData) : Prop :=
  Until Accepted Refused (tvp.cells row)

variable {tvp : TypeInfoTvp} {row : List ColumnData}

/-- The cells in front of the end of the columns, and a panic for each behind it. -/
theorem encodeCells_eq (tvp : TypeInfoTvp) (row : List ColumnData) :
    row.mapIdx tvp.encodeCell =
      (tvp.cells row).map (fun cell => cell.1.encode cell.2) ++
        (row.drop (tvp.types row).length).map fun _ => .fail .panic := by
  cases hcolumns : tvp.columns with
  | none =>
    have htypes : tvp.types row = row.map fun _ => none := by
      rw [types, hcolumns]
    have hcells : row.mapIdx tvp.encodeCell = row.map fun col => col.encode none := by
      apply List.mapIdx_eq_iff.mpr
      intro i
      unfold encodeCell
      rw [hcolumns, List.getElem?_map]
    have hzip : tvp.cells row = row.map fun col => (col, none) := by
      have hsplit := @List.zip_map' _ _ _ id (fun _ : ColumnData => (none : Option TypeInfo)) row
      rw [List.map_id] at hsplit
      rw [cells, htypes]
      exact hsplit
    rw [hcells, hzip, htypes, List.length_map, List.drop_length, List.map_map]
    exact (List.append_nil _).symm
  | some columns =>
    rw [cells, ← mapIdx_lookup]
    congr 1
    funext i col
    unfold encodeCell types
    rw [hcolumns]
    simp only [List.getElem?_map]
    cases columns[i]? with
    | none => rfl
    | some column => rfl

theorem encodeRow_ok_iff : (tvp.encodeRow row).result = .ok () ↔ tvp.RowFits row := by
  have hmissing : (∀ step ∈ (row.drop (tvp.types row).length).map fun _ =>
      (.fail .panic : Writer Unit), step.result = .ok ()) ↔
        row.length ≤ (tvp.types row).length := by
    rw [List.forall_mem_map, ← List.drop_eq_nil_iff]
    constructor
    · intro hall
      apply List.eq_nil_iff_forall_not_mem.mpr
      intro col hcol
      cases hall col hcol
    · intro hnil
      rw [hnil]
      exact fun col hcol => absurd hcol List.not_mem_nil
  refine Written.result_bind_eq_ok_iff.trans ((and_iff_right rfl).trans ?_)
  rw [Written.all_result_eq_ok_iff, encodeCells_eq, List.forall_mem_append, hmissing,
    List.forall_mem_map]
  exact and_comm

/-- A row fails with an error where a cell is refused. The panic behind the last column
comes later than that. -/
theorem encodeRow_error_iff :
    (∃ error, (tvp.encodeRow row).result = .error (.error error)) ↔ tvp.RowRefused row := by
  have herror : ∀ error, (tvp.encodeRow row).result = .error (.error error) ↔
      Until Accepted (fun cell => (cell.1.encode cell.2).result = .error (.error error))
        (tvp.cells row) := by
    intro error
    have hbind : tvp.encodeRow row =
        (Written.all (row.mapIdx tvp.encodeCell)).after [0x01] := rfl
    rw [hbind, Written.after_result, Written.all_result_eq_error_iff, encodeCells_eq, Until.append,
      Until.map]
    refine or_iff_left ?_
    rintro ⟨-, hpanic⟩
    refine Until.elim ?_ hpanic
    rw [List.forall_mem_map]
    rintro col - ⟨⟩
  simp only [herror]
  exact Until.exists_index

theorem encodeRow_of_written {bytes : List UInt8} (hwritten : tvp.RowWritten row bytes) :
    tvp.encodeRow row = .done bytes () := by
  obtain ⟨hlength, pieces, hpieces, rfl⟩ := hwritten
  have hall : Written.all (row.mapIdx tvp.encodeCell) = .done pieces.flatten () := by
    rw [encodeCells_eq, ← hlength, List.drop_length, List.map_nil, List.append_nil,
      Written.all_eq_done_iff]
    exact ⟨pieces, List.forall₂_map_left_iff.mpr hpieces, rfl⟩
  exact Written.headed_done [0x01] hall

/-- A row can be written exactly if it has a cell for each column and its columns
accept them. -/
theorem rowWritten_iff : (∃ bytes, tvp.RowWritten row bytes) ↔
    row.length = (tvp.types row).length ∧ ∀ cell ∈ tvp.cells row, Accepted cell := by
  have hcells : (∃ pieces, List.Forall₂ (fun cell piece =>
      ColumnData.encode cell.1 cell.2 = .done piece ()) (tvp.cells row) pieces) ↔
        ∀ cell ∈ tvp.cells row, Accepted cell :=
    exists_forall₂.trans (forall₂_congr fun _ _ => Written.result_eq_ok_iff.symm)
  rw [← hcells]
  constructor
  · rintro ⟨_, hlength, pieces, hpieces, -⟩
    exact ⟨hlength, pieces, hpieces⟩
  · rintro ⟨hlength, pieces, hpieces⟩
    exact ⟨_, hlength, pieces, hpieces, rfl⟩

/-- The rows fail with an error where one of them does, behind rows that went through. -/
theorem encodeRows_error_iff :
    (∃ error, (Written.all (tvp.data.map tvp.encodeRow)).result = .error (.error error)) ↔
      Until tvp.RowFits tvp.RowRefused tvp.data := by
  simp only [Written.all_result_eq_error_iff, Until.map]
  rw [Until.exists_index]
  exact Until.congr (fun _ _ => encodeRow_ok_iff) fun _ _ => encodeRow_error_iff

/-- A table is refused or delivered exactly if its header is refused, or a row is
refused that no row too long precedes, or every row has a cell for each column. -/
theorem delivers_iff (tvp : TypeInfoTvp) : tvp.Delivers ↔
    ¬ tvp.HeaderFits ∨ Until tvp.RowFits tvp.RowRefused tvp.data ∨
      ∀ row ∈ tvp.data, row.length = (tvp.types row).length ∧
        ∀ cell ∈ tvp.cells row, Accepted cell := by
  by_cases hfits : tvp.HeaderFits
  · have hheader := Written.eq_done_of_result (tvp.header_ok_iff.mpr hfits)
    have hencode : tvp.encode = ((Written.all (tvp.data.map tvp.encodeRow)).bind fun _ =>
        putU8 0).after tvp.header.output := by
      unfold encode
      rw [hheader]
      rfl
    have hlast : (putU8 0).result = .ok () := rfl
    rw [or_iff_right (not_not_intro hfits), Delivers]
    refine or_congr ?_ ?_
    · rw [← encodeRows_error_iff, hencode, Written.after_result]
      exact exists_congr fun error => Written.result_bind_eq_error_iff hlast
    · simp only [← rowWritten_iff]
      rw [← exists_forall₂]
      constructor
      · rintro ⟨-, rows, -, -, hrows⟩
        exact ⟨rows, hrows⟩
      · rintro ⟨rows, hrows⟩
        have hall : Written.all (tvp.data.map tvp.encodeRow) = .done rows.flatten () := by
          refine Written.all_eq_done_iff.mpr ⟨rows, ?_, rfl⟩
          exact List.forall₂_map_left_iff.mpr (hrows.imp fun _ _ => encodeRow_of_written)
        refine ⟨_, rows, hheader, ?_, hrows⟩
        rw [hencode, hall, List.append_assoc]
        rfl
  · refine iff_of_true (.inl ?_) (.inl hfits)
    cases hresult : tvp.header.result with
    | ok value => exact absurd (tvp.header_ok_iff.mp hresult) hfits
    | error fault =>
      cases fault with
      | panic => exact absurd hresult tvp.header_ne_panic
      | error error => exact ⟨error, Written.result_bind_of_error hresult _⟩

end Rows

/-- A column of integers, as the server returns it. -/
def integers : MetaDataColumn where
  base := { flags := 1, ty := .fixedLen .int4, tableName := none }
  colName := "n"

/-- A row of two cells for one column panics, and a row of one cell for two columns is
written, with the token that ends the table where its second cell is expected. -/
theorem long_row_panics :
    (@encode .exact .ascii (resolved "dbo.T" [[.i32 (some 7), .i32 (some 8)]]
        (some [integers]))).result = .error .panic ∧
      ¬ @Delivers .exact .ascii (resolved "dbo.T" [[.i32 (some 7), .i32 (some 8)]]
        (some [integers])) ∧
      (@encode .exact .ascii (resolved "dbo.T" [[.i32 (some 7)]]
        (some [integers, integers]))).result = .ok () ∧
      ¬ @Delivers .exact .ascii (resolved "dbo.T" [[.i32 (some 7)]]
        (some [integers, integers])) := by
  have hlong : (@encode .exact .ascii (resolved "dbo.T" [[.i32 (some 7), .i32 (some 8)]]
      (some [integers]))).result = .error .panic := rfl
  have hshort : (@encode .exact .ascii (resolved "dbo.T" [[.i32 (some 7)]]
      (some [integers, integers]))).result = .ok () := rfl
  refine ⟨hlong, ?_, hshort, ?_⟩
  · rintro (⟨error, herror⟩ | ⟨front, rows, -, hdone, -⟩)
    · cases hlong.symm.trans herror
    · cases hlong.symm.trans (congrArg Written.result hdone)
  · rintro (⟨error, herror⟩ | ⟨front, rows, -, -, hrows⟩)
    · cases hshort.symm.trans herror
    · cases hrows with
      | cons hrow _ => exact absurd hrow.1 (by decide)

end TypeInfoTvp

end Tiberius
