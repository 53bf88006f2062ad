import Tiberius.Fields
import Tiberius.Tokens

/-!
The two encodings of a row. A ROW holds every cell, a NULL in the form that the
type of its column has for it; an NBCROW starts with a bitmap of its NULLs and
holds the other cells. A NULL of the first kind is decoded with the values of its
column, one of the second kind is taken from a table of its own, and the two
differ for a nullable `datetime` column that is not eight bytes wide.
-/

namespace Tiberius

open Reading Reader Program

/-- How a NULL of a type is written in a row, for the types that have one. -/
def TypeInfo.nullForm : TypeInfo → Option (List UInt8)
  | .fixedLen .null => some []
  | .fixedLen _ => none
  | .varLenSized cx =>
    match cx.type with
    | .bitn | .intn | .floatn | .guid | .money | .datetimen => some [0]
    | .daten | .timen | .datetime2 | .datetimeOffsetn => some [0]
    | .text | .ntext | .image => some [0]
    | .bigVarBin | .bigBinary | .bigVarChar | .bigChar | .nvarchar | .nchar =>
      some (if cx.len < 0xffff then toLe 2 0xffff else toLe 8 0xffffffffffffffff)
    | .ssVariant => some (toLe 4 0)
    | .decimaln | .numericn | .xml | .udt => none
  | .varLenSizedPrecision ty _ _ _ =>
    match ty with
    | .decimaln | .numericn => some [0]
    | _ => none
  | .xml _ size => some (if size < 0xffff then toLe 2 0xffff else toLe 8 0xffffffffffffffff)
  | .udt _ => some (toLe 8 0xffffffffffffffff)

/-- A cell of a logical row: a value with its encoding, or NULL. -/
inductive Cell where
  | value (bytes : List UInt8) (data : ColumnData)
  | null

namespace Cell

def isNull : Cell → Bool
  | value _ _ => false
  | null => true

/-- The cell in a ROW. -/
def rowBytes (ty : TypeInfo) : Cell → List UInt8
  | value bytes _ => bytes
  | null => ty.nullForm.getD []

/-- The cell in an NBCROW, where a NULL takes no bytes of its own. -/
def packedBytes : Cell → List UInt8
  | value bytes _ => bytes
  | null => []

variable [EncodingRs]

/-- The cell can stand in a column: its bytes encode its value, or the type of the
column has a NULL. -/
def Fits (env : Context) (column : MetaDataColumn) : Cell → Prop
  | value bytes data => (ColumnData.decode column.base.ty).Reads env bytes data
  | null => column.base.ty.nullForm.isSome

end Cell

/-- The bits of a byte, the lowest one first. -/
def byteOfBits (bits : List Bool) : ℕ := bits.foldr (fun bit rest => bit.toNat + 2 * rest) 0

/-- The bitmap of a packed row: one bit for each column, in whole bytes. -/
def nullBitmap (nulls : List Bool) : List UInt8 :=
  (List.range ((nulls.length + 7) / 8)).map fun k =>
    UInt8.ofNat (byteOfBits ((nulls.drop (8 * k)).take 8))

/-- The cells of a ROW, in order. -/
def rowEncoding (columns : List MetaDataColumn) (cells : List Cell) : List UInt8 :=
  (List.zipWith (fun column cell => Cell.rowBytes column.base.ty cell) columns cells).flatten

/-- The bitmap of an NBCROW, and its cells that are not NULL. -/
def packedEncoding (cells : List Cell) : List UInt8 :=
  nullBitmap (cells.map Cell.isNull) ++ cells.flatMap Cell.packedBytes

section Bitmap

theorem byteOfBits_lt (bits : List Bool) : byteOfBits bits < 2 ^ bits.length := by
  induction bits with
  | nil => exact Nat.one_pos
  | cons bit bits ih =>
    have hbit := bit.toNat_lt
    rw [byteOfBits, List.foldr_cons, List.length_cons, Nat.pow_succ]
    rw [byteOfBits] at ih
    omega

theorem testBit_byteOfBits (bits : List Bool) (i : ℕ) :
    (byteOfBits bits).testBit i = bits.getD i false := by
  induction bits generalizing i with
  | nil => rw [byteOfBits, List.foldr_nil, Nat.zero_testBit, List.getD_nil]
  | cons bit bits ih =>
    have hcons : byteOfBits (bit :: bits) = bit.toNat + 2 * byteOfBits bits := rfl
    have hbit := bit.toNat_lt
    cases i with
    | zero =>
      rw [hcons, Nat.testBit_zero, List.getD_cons_zero, Nat.add_mul_mod_self_left]
      cases bit <;> rfl
    | succ i =>
      have hdiv : byteOfBits (bit :: bits) / 2 = byteOfBits bits := by omega
      rw [Nat.testBit_add_one, hdiv, ih, List.getD_cons_succ]

theorem isNull_nullBitmap (nulls : List Bool) {i : ℕ} (hi : i < nulls.length) :
    rowBitmapIsNull (nullBitmap nulls) i = nulls.getD i false := by
  have hbyte : i / 8 < (nulls.length + 7) / 8 := by omega
  have hlt : byteOfBits ((nulls.drop (8 * (i / 8))).take 8) < 2 ^ 8 := by
    refine Nat.lt_of_lt_of_le (byteOfBits_lt _) (Nat.pow_le_pow_right (by decide) ?_)
    rw [List.length_take]
    omega
  have hget : (nullBitmap nulls).getD (i / 8) 0 =
      UInt8.ofNat (byteOfBits ((nulls.drop (8 * (i / 8))).take 8)) := by
    rw [nullBitmap, List.getD_eq_getElem?_getD, List.getElem?_map, List.getElem?_range hbyte]
    rfl
  have hindex : 8 * (i / 8) + i % 8 = i := by omega
  rw [rowBitmapIsNull, hget, UInt8.toNat_ofNat', Nat.mod_eq_of_lt hlt, testBit_byteOfBits]
  rw [List.getD_eq_getElem?_getD, List.getElem?_take_of_lt (by omega), List.getElem?_drop, hindex,
    ← List.getD_eq_getElem?_getD]

theorem nullBitmap_length (nulls : List Bool) :
    (nullBitmap nulls).length = (nulls.length + 7) / 8 := by
  rw [nullBitmap, List.length_map, List.length_range]

/-- The bitmap marks the cells from the `i`-th on. -/
def Marks (bitmap : List UInt8) (i : ℕ) (cells : List Cell) : Prop :=
  ∀ k < cells.length, rowBitmapIsNull bitmap (i + k) = (cells.map Cell.isNull).getD k false

theorem Marks.head {bitmap : List UInt8} {i : ℕ} {cell : Cell} {cells : List Cell}
    (hmarks : Marks bitmap i (cell :: cells)) : rowBitmapIsNull bitmap i = cell.isNull :=
  hmarks 0 (Nat.succ_pos _)

theorem Marks.tail {bitmap : List UInt8} {i : ℕ} {cell : Cell} {cells : List Cell}
    (hmarks : Marks bitmap i (cell :: cells)) : Marks bitmap (i + 1) cells := by
  intro k hk
  rw [Nat.add_right_comm, Nat.add_assoc]
  exact hmarks (k + 1) (Nat.succ_lt_succ hk)

theorem marks_nullBitmap (cells : List Cell) : Marks (nullBitmap (cells.map Cell.isNull)) 0 cells := by
  intro k hk
  rw [Nat.zero_add]
  apply isNull_nullBitmap
  rwa [List.length_map]

end Bitmap

section Nulls

variable {env : Context}

/-- A nullable `datetime` is eight bytes wide, as far as the length byte tells. -/
def TypeInfo.WideDatetime (ty : TypeInfo) : Prop :=
  ∀ cx, ty = .varLenSized cx → cx.type = .datetimen → UInt8.ofNat cx.len = 8

theorem head_of_reads {p : Reader ColumnData} {q : Reader (List ColumnData)}
    {symbols rest : List UInt8} {value : ColumnData} {values : List ColumnData}
    (hreads : (p.bind fun value => q.bind fun values => ret (value :: values)).Reads env symbols
      values)
    (hrun : p.run env symbols = .done value rest) : ∃ tail, values = value :: tail := by
  unfold Reads at hreads
  rw [run_bind, hrun] at hreads
  obtain ⟨_, _, tail, -, -, hret⟩ := reads_bind.mp hreads
  exact ⟨tail, (reads_ret.mp hret).2⟩

theorem not_reads_of_failed {p : Reader ColumnData} {f : ColumnData → Reader (List ColumnData)}
    {symbols rest : List UInt8} {fault : Fault} {values : List ColumnData}
    (hreads : (p.bind f).Reads env symbols values) (hrun : p.run env symbols = .failed fault rest) :
    False := by
  unfold Reads at hreads
  rw [run_bind, hrun] at hreads
  cases hreads

theorem decodePlp_null (len : ℕ) :
    (decodePlp len).Reads env
      (if len < 0xffff then toLe 2 0xffff else toLe 8 0xffffffffffffffff) none := by
  by_cases hlen : len < 0xffff
  · have hread : readU16Le.Reads env (toLe 2 0xffff) 0xffff := readU16Le_reads.mpr rfl
    rw [decodePlp, if_pos hlen, if_pos hlen]
    exact hread.bind_last (ret_reads _)
  · have hread : readU64Le.Reads env (toLe 8 0xffffffffffffffff) 0xffffffffffffffff :=
      readU64Le_reads.mpr rfl
    rw [decodePlp, if_neg hlen, if_neg hlen]
    exact hread.bind_last (ret_reads _)

variable [EncodingRs]

theorem decodeString_null (ty : VarLenType) (len : ℕ) (collation : Option Collation) :
    (decodeString ty len collation).Reads env
      (if len < 0xffff then toLe 2 0xffff else toLe 8 0xffffffffffffffff) none :=
  (decodePlp_null len).bind_last (ret_reads _)

/-- A NULL of a variable-length type is decoded to the one of the table. -/
theorem varLen_null_reads {flags : UInt16} {tableName : Option String} {cx : VarLenContext}
    {bytes : List UInt8} (hform : (TypeInfo.varLenSized cx).nullForm = some bytes)
    (hwide : (TypeInfo.varLenSized cx).WideDatetime) :
    (decodeVarLen cx).Reads env bytes
      (BaseMetaDataColumn.nullValue { flags, ty := .varLenSized cx, tableName }) := by
  obtain ⟨ty, len, collation⟩ := cx
  cases ty with
  | decimaln | numericn | xml | udt => cases hform
  | intn =>
    obtain rfl := Option.some.inj hform
    rcases len with _ | _ | _ | _ | _ | len <;> rfl
  | floatn =>
    obtain rfl := Option.some.inj hform
    rcases len with _ | _ | _ | _ | _ | len <;> rfl
  | datetimen =>
    obtain rfl := Option.some.inj hform
    have hlen := hwide _ rfl rfl
    have hzero : readU8.Reads env [0] 0 := readU8_put _
    refine hzero.bind_last ?_
    rw [show UInt8.ofNat len = 8 from hlen]
    exact ret_reads _
  | bigVarBin | bigBinary =>
    obtain rfl := Option.some.inj hform
    exact (decodePlp_null len).bind_last (ret_reads _)
  | bigVarChar | bigChar | nvarchar | nchar =>
    obtain rfl := Option.some.inj hform
    exact (decodeString_null _ len collation).bind_last (ret_reads _)
  | bitn | guid | money | daten | timen | datetime2 | datetimeOffsetn | text | ntext | image
  | ssVariant =>
    obtain rfl := Option.some.inj hform
    rfl

theorem null_reads {column : BaseMetaDataColumn} {bytes : List UInt8}
    (hform : column.ty.nullForm = some bytes) (hwide : column.ty.WideDatetime) :
    (ColumnData.decode column.ty).Reads env bytes column.nullValue := by
  obtain ⟨flags, ty, tableName⟩ := column
  cases ty with
  | fixedLen ty =>
    cases ty with
    | null =>
      obtain rfl := Option.some.inj hform
      rfl
    | _ => cases hform
  | varLenSized cx => exact varLen_null_reads hform hwide
  | varLenSizedPrecision ty size precision scale =>
    cases ty with
    | decimaln | numericn =>
      obtain rfl := Option.some.inj hform
      rfl
    | _ => cases hform
  | xml schema size =>
    obtain rfl := Option.some.inj hform
    exact (decodeString_null .xml size none).bind_last (ret_reads _)
  | udt info =>
    obtain rfl := Option.some.inj hform
    exact (decodePlp_null 0xffffffff).bind_last (ret_reads _)

/-- A NULL of a narrow `datetime` is decoded to another NULL, or refused. -/
theorem narrow_null_run {cx : VarLenContext} (hty : cx.type = .datetimen)
    (hlen : UInt8.ofNat cx.len ≠ 8) (rest : List UInt8) :
    (decodeVarLen cx).run env (0 :: rest) = .done (.smallDateTime none) rest ∨
      ∃ fault, (decodeVarLen cx).run env (0 :: rest) = .failed fault rest := by
  obtain ⟨ty, len, collation⟩ := cx
  cases hty
  have hread : readU8.Reads env [0] 0 := readU8_put _
  have hrun : (decodeVarLen { type := .datetimen, len := len, collation := collation }).run env
      (0 :: rest) = (decodeDatetimen 0 (UInt8.ofNat len)).run env rest := by
    change (readU8.bind fun rlen => decodeDatetimen rlen (UInt8.ofNat len)).run env ([0] ++ rest) = _
    rw [run_bind, hread.run_append]
    rfl
  obtain ⟨n, hn⟩ : ∃ n, (UInt8.ofNat len).toNat = n := ⟨_, rfl⟩
  have height : n ≠ 8 := by
    rintro rfl
    exact hlen (UInt8.toNat.inj hn)
  rw [hrun, decodeDatetimen, hn]
  rcases n with _ | _ | _ | _ | _ | _ | _ | _ | _ | n
  case succ.succ.succ.succ.zero => exact .inl rfl
  case succ.succ.succ.succ.succ.succ.succ.succ.zero => exact (height rfl).elim
  all_goals exact .inr ⟨_, rfl⟩

end Nulls

section Rows

variable [EncodingRs] {env : Context}

/-- A NULL stands only in a column whose NULLs the two decoders agree on. -/
def Cell.Wide (column : MetaDataColumn) : Cell → Prop
  | .value _ _ => True
  | .null => column.base.ty.WideDatetime

/-- The cell as the two decoders see it: the bytes of a ROW give the same value as
the bit and the bytes of an NBCROW. -/
theorem Cell.reads {column : MetaDataColumn} {cell : Cell} (hfits : cell.Fits env column)
    (hwide : cell.Wide column) :
    ∃ value, (ColumnData.decode column.base.ty).Reads env (cell.rowBytes column.base.ty) value ∧
      (if cell.isNull then ret column.base.nullValue
        else ColumnData.decode column.base.ty : Reader ColumnData).Reads env cell.packedBytes value := by
  cases cell with
  | value bytes data => exact ⟨data, hfits, hfits⟩
  | null =>
    obtain ⟨bytes, hform⟩ := Option.isSome_iff_exists.mp hfits
    refine ⟨column.base.nullValue, ?_, ret_reads _⟩
    rw [rowBytes, hform]
    exact null_reads hform hwide

theorem decodePackedValues_cons {bitmap : List UInt8} {i : ℕ} {column : MetaDataColumn}
    {columns : List MetaDataColumn} {null : Bool} (hnull : rowBitmapIsNull bitmap i = null) :
    decodePackedValues bitmap i (column :: columns) =
      (if null then ret column.base.nullValue
        else ColumnData.decode column.base.ty : Reader ColumnData).bind fun value =>
          (decodePackedValues bitmap (i + 1) columns).bind fun values => ret (value :: values) := by
  rw [decodePackedValues, hnull]
  cases null <;> rfl

theorem cells_agree {columns : List MetaDataColumn} {cells : List Cell}
    (hcells : List.Forall₂ (fun column cell => cell.Fits env column) columns cells)
    (hwide : List.Forall₂ (fun column cell => cell.Wide column) columns cells)
    {bitmap : List UInt8} {i : ℕ} (hmarks : Marks bitmap i cells) :
    ∃ values, (decodeValues (columns.map fun column => column.base.ty)).Reads env
        (rowEncoding columns cells) values ∧
      (decodePackedValues bitmap i columns).Reads env (cells.flatMap Cell.packedBytes) values := by
  induction hcells generalizing i with
  | nil => exact ⟨[], rfl, rfl⟩
  | @cons column cell columns cells hfits _ ih =>
    obtain ⟨hcell, hwide⟩ := List.forall₂_cons.mp hwide
    obtain ⟨value, hrow, hpacked⟩ := Cell.reads hfits hcell
    obtain ⟨values, hrows, hpackeds⟩ := ih hwide hmarks.tail
    refine ⟨value :: values, ?_, ?_⟩
    · exact hrow.bind (hrows.bind_last (ret_reads _))
    · rw [decodePackedValues_cons hmarks.head]
      exact hpacked.bind (hpackeds.bind_last (ret_reads _))

theorem Cell.wide_of_agree {column : MetaDataColumn} {cell : Cell}
    {q packed : Reader (List ColumnData)} {rowRest packedRest : List UInt8}
    {values : List ColumnData}
    (hrow : ((ColumnData.decode column.base.ty).bind fun value =>
      q.bind fun values => ret (value :: values)).Reads env
        (cell.rowBytes column.base.ty ++ rowRest) values)
    (hpacked : ((if cell.isNull then ret column.base.nullValue
      else ColumnData.decode column.base.ty : Reader ColumnData).bind fun value =>
        packed.bind fun values => ret (value :: values)).Reads env
          (cell.packedBytes ++ packedRest) values) : cell.Wide column := by
  cases cell with
  | value bytes data => trivial
  | null =>
    intro cx hty hdatetimen
    by_contra hlen
    obtain ⟨⟨flags, ty, tableName⟩, colName⟩ := column
    cases hty
    obtain ⟨ty, len, collation⟩ := cx
    cases hdatetimen
    obtain ⟨tail, rfl⟩ := head_of_reads hpacked rfl
    rcases narrow_null_run rfl hlen rowRest with hrun | ⟨fault, hrun⟩
    · obtain ⟨other, heq⟩ := head_of_reads hrow hrun
      cases heq
    · exact not_reads_of_failed hrow hrun

/-- Where the decoders agree on the row, no NULL stands in a narrow `datetime`. -/
theorem wide_of_agree {columns : List MetaDataColumn} {cells : List Cell}
    (hcells : List.Forall₂ (fun column cell => cell.Fits env column) columns cells)
    {bitmap : List UInt8} {i : ℕ} (hmarks : Marks bitmap i cells) {values : List ColumnData}
    (hrow : (decodeValues (columns.map fun column => column.base.ty)).Reads env
      (rowEncoding columns cells) values)
    (hpacked : (decodePackedValues bitmap i columns).Reads env
      (cells.flatMap Cell.packedBytes) values) :
    List.Forall₂ (fun column cell => cell.Wide column) columns cells := by
  induction hcells generalizing i values with
  | nil => exact .nil
  | @cons column cell columns cells hfits _ ih =>
    rw [decodePackedValues_cons hmarks.head] at hpacked
    have hwide : cell.Wide column := Cell.wide_of_agree hrow hpacked
    obtain ⟨value, hvalue, hpackedValue⟩ := Cell.reads hfits hwide
    refine .cons hwide ?_
    have hrows := Reads.of_bind hrow hvalue
    have hpackeds := Reads.of_bind hpacked hpackedValue
    obtain ⟨_, _, tail, hsplit, htail, hret⟩ := reads_bind.mp hrows
    obtain ⟨_, _, packedTail, hsplit', hpackedTail, hret'⟩ := reads_bind.mp hpackeds
    obtain ⟨rfl, rfl⟩ := reads_ret.mp hret
    obtain ⟨rfl, heq⟩ := reads_ret.mp hret'
    obtain rfl := (List.cons.inj heq).2
    rw [List.append_nil] at hsplit hsplit'
    subst hsplit hsplit'
    exact ih hmarks.tail htail hpackedTail

/-- The two encodings of a row are decoded to the same row, and to their ends. -/
def RowsAgree (env : Context) (columns : List MetaDataColumn) (cells : List Cell) : Prop :=
  ∃ row, TokenRow.decode.run env (rowEncoding columns cells) = .done row [] ∧
    TokenRow.decodeNbc.run env (packedEncoding cells) = .done row []

theorem tokenRow_reads {metadata : TokenColMetaData} (hmeta : env.lastMeta = some metadata)
    {bytes : List UInt8} {row : TokenRow} :
    TokenRow.decode.Reads env bytes row ↔
      (decodeValues (metadata.columns.map fun column => column.base.ty)).Reads env bytes row.data := by
  have hbody : TokenRow.decode.Reads env bytes row ↔
      ((decodeValues (metadata.columns.map fun column => column.base.ty)).bind fun data =>
        ret { data := data }).Reads env bytes row := by
    simp only [TokenRow.decode, context, bind_eq, Program.bind, reads_ask, hmeta, pure_eq]
  rw [hbody, reads_bind]
  constructor
  · rintro ⟨first, second, data, rfl, hdata, hret⟩
    obtain ⟨rfl, rfl⟩ := reads_ret.mp hret
    rwa [List.append_nil]
  · intro hdata
    exact ⟨bytes, [], row.data, (List.append_nil bytes).symm, hdata, ret_reads _⟩

theorem decodeNbc_reads {metadata : TokenColMetaData} (hmeta : env.lastMeta = some metadata)
    {bitmap bytes : List UInt8} (hbitmap : bitmap.length = (metadata.columns.length + 7) / 8)
    {row : TokenRow} :
    TokenRow.decodeNbc.Reads env (bitmap ++ bytes) row ↔
      (decodePackedValues bitmap 0 metadata.columns).Reads env bytes row.data := by
  have hread : (readExact ((metadata.columns.length + 7) / 8)).Reads env bitmap bitmap :=
    readExact_reads.mpr ⟨hbitmap, rfl⟩
  have hbody : TokenRow.decodeNbc.Reads env (bitmap ++ bytes) row ↔
      ((readExact ((metadata.columns.length + 7) / 8)).bind fun bitmap =>
        (decodePackedValues bitmap 0 metadata.columns).bind fun data =>
          ret { data := data }).Reads env (bitmap ++ bytes) row := by
    simp only [TokenRow.decodeNbc, context, bind_eq, Program.bind, reads_ask, hmeta, pure_eq]
  rw [hbody]
  constructor
  · intro hreads
    have hrest := Reads.of_bind hreads hread
    obtain ⟨first, second, data, rfl, hdata, hret⟩ := reads_bind.mp hrest
    obtain ⟨rfl, rfl⟩ := reads_ret.mp hret
    rwa [List.append_nil]
  · intro hdata
    exact hread.bind (hdata.bind_last (ret_reads _))

/-- The two encodings of a row, with any number of columns, are decoded to the same
row exactly when none of its NULLs stands in a nullable `datetime` column whose
length is another one than eight. -/
theorem rows_agree_iff (env : Context) (metadata : TokenColMetaData) (cells : List Cell)
    (hmeta : env.lastMeta = some metadata)
    (hcells : List.Forall₂ (fun column cell => cell.Fits env column) metadata.columns cells) :
    RowsAgree env metadata.columns cells ↔
      List.Forall₂ (fun column cell => cell.Wide column) metadata.columns cells := by
  have hmarks := marks_nullBitmap cells
  have hbitmap : (nullBitmap (cells.map Cell.isNull)).length =
      (metadata.columns.length + 7) / 8 := by
    rw [nullBitmap_length, List.length_map, hcells.length_eq]
  constructor
  · rintro ⟨row, hrow, hpacked⟩
    exact wide_of_agree hcells hmarks ((tokenRow_reads hmeta).mp hrow)
      ((decodeNbc_reads hmeta hbitmap).mp hpacked)
  · intro hwide
    obtain ⟨values, hrow, hpacked⟩ := cells_agree hcells hwide hmarks
    exact ⟨{ data := values }, (tokenRow_reads hmeta).mpr hrow,
      (decodeNbc_reads hmeta hbitmap).mpr hpacked⟩

end Rows

/-- A nullable `datetime` column of a width. -/
def datetimeColumn (len : ℕ) : MetaDataColumn where
  base :=
    { flags := 0
      ty := .varLenSized { type := .datetimen, len := len, collation := none }
      tableName := none }
  colName := "d"

/-- A context in which the rows of two such columns are decoded. -/
def datetimeContext (len : ℕ) : Context :=
  Context.new.setLastMeta { columns := [datetimeColumn len, datetimeColumn 8] }

theorem rows_agree_iff_wide :
    @RowsAgree .ascii (datetimeContext 8) [datetimeColumn 8, datetimeColumn 8] [.null, .null] :=
  (@rows_agree_iff .ascii (datetimeContext 8) { columns := [datetimeColumn 8, datetimeColumn 8] }
    [.null, .null] rfl (.cons rfl (.cons rfl .nil))).mpr
      (.cons (by intro cx hcx _; cases hcx; rfl) (.cons (by intro cx hcx _; cases hcx; rfl) .nil))

/-- The NULL of a `smalldatetime` column comes out as one of a `datetime` from a
packed row. -/
theorem rows_differ_narrow :
    ¬∀ (env : Context) (metadata : TokenColMetaData) (cells : List Cell),
      env.lastMeta = some metadata →
        List.Forall₂ (fun column cell => @Cell.Fits .ascii env column cell) metadata.columns cells →
          @RowsAgree .ascii env metadata.columns cells := by
  intro hagree
  obtain ⟨row, hrow, hpacked⟩ := hagree (datetimeContext 4)
    { columns := [datetimeColumn 4, datetimeColumn 8] } [.null, .null] rfl
    (.cons rfl (.cons rfl .nil))
  have hsmall : (@TokenRow.decode .ascii).run (datetimeContext 4)
      (rowEncoding [datetimeColumn 4, datetimeColumn 8] [.null, .null]) =
        .done { data := [.smallDateTime none, .dateTime none] } [] := rfl
  have hwide : (@TokenRow.decodeNbc .ascii).run (datetimeContext 4)
      (packedEncoding [.null, .null]) = .done { data := [.dateTime none, .dateTime none] } [] := rfl
  rw [hsmall] at hrow
  rw [hwide] at hpacked
  cases hrow
  cases hpacked

end Tiberius
