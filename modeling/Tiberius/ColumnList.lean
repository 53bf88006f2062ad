import Tiberius.Encoders

/-!
The column list of a bulk insert. Each column is declared by the text of an SQL
type there, while the metadata in front of the rows describes it by its type
information. What the text denotes is compared with what the type information
says: kind, size in the unit of the type, precision and scale. The two are
separate tables, and they differ on several types.
-/

namespace Tiberius

open Reading Program Writing Writer

/-- `Display` of a description, in a column list. -/
def TypeInfo.display : TypeInfo → Option String
  | .fixedLen ty =>
    match ty with
    | .int1 => some "tinyint"
    | .bit => some "bit"
    | .int2 => some "smallint"
    | .int4 => some "int"
    | .datetime4 => some "smalldatetime"
    | .float4 => some "real"
    | .money => some "money"
    | .datetime => some "datetime"
    | .float8 => some "float"
    | .money4 => some "smallmoney"
    | .int8 => some "bigint"
    | .null => some "int"
  | .varLenSized ctx =>
    match ctx.type with
    | .bitn => some "bit"
    | .guid => some "uniqueidentifier"
    | .daten => some "date"
    | .timen => some "time"
    | .datetime2 => some ("datetime2(" ++ toString ctx.len ++ ")")
    | .datetimen => some "datetime"
    | .money => if ctx.len = 4 then some "smallmoney" else some "money"
    | .datetimeOffsetn => some "datetimeoffset"
    | .bigVarBin =>
      if ctx.len ≤ 8000 then some ("varbinary(" ++ toString ctx.len ++ ")")
      else some "varbinary(max)"
    | .bigVarChar =>
      if ctx.len ≤ 8000 then some ("varchar(" ++ toString ctx.len ++ ")") else some "varchar(max)"
    | .bigBinary => some ("binary(" ++ toString ctx.len ++ ")")
    | .bigChar => some ("char(" ++ toString ctx.len ++ ")")
    | .nvarchar =>
      if ctx.len ≤ 4000 then some ("nvarchar(" ++ toString ctx.len ++ ")") else some "nvarchar(max)"
    | .nchar => some ("nchar(" ++ toString ctx.len ++ ")")
    | .text => some "text"
    | .image => some "image"
    | .ntext => some "ntext"
    | .intn =>
      if ctx.len = 1 then some "tinyint"
      else if ctx.len = 2 then some "smallint"
      else if ctx.len = 4 then some "int"
      else some "bigint"
    | .floatn => if ctx.len = 4 then some "real" else some "float"
    | .ssVariant => some "sql_variant"
    | .decimaln | .numericn | .xml | .udt => none
  | .varLenSizedPrecision ty _ precision scale =>
    match ty with
    | .numericn => some ("numeric(" ++ toString precision.toNat ++ "," ++ toString scale.toNat ++ ")")
    | _ => some ("decimal(" ++ toString precision.toNat ++ "," ++ toString scale.toNat ++ ")")
  | .xml _ _ => some "xml"
  | .udt info => some (info.schemaName ++ "." ++ info.typeName)

/-- A name in brackets, with its closing brackets doubled. -/
def bracketed (name : String) : String :=
  "[" ++ String.ofList (name.toList.flatMap fun c => if c = ']' then [']', ']'] else [c]) ++ "]"

/-- `Display` of a column; it fails where the type has no text. -/
def MetaDataColumn.display (column : MetaDataColumn) : Option String :=
  column.base.ty.display.map fun ty => bracketed column.colName ++ " " ++ ty

section Collations

variable [StdLib]

/-- `declares_collation`: the character types. -/
def TypeInfo.declaresCollation : TypeInfo → Bool
  | .varLenSized ctx =>
    match ctx.type with
    | .bigChar | .bigVarChar | .text | .nchar | .nvarchar | .ntext => true
    | _ => false
  | _ => false

/-- `column_collation`: the row of the name, or the only one of the name in
another case. -/
def columnCollation (name : String) (collations : List (String × Option String)) :
    Option String :=
  match collations.find? fun row => row.1 == name with
  | some row => row.2
  | none =>
    match collations.filter fun row => StdLib.toLowercase row.1 == StdLib.toLowercase name with
    | [row] => row.2
    | _ => none

def validateCollationName (name : String) : Except Fault Unit :=
  if !name.isEmpty && name.toList.all fun c => c.isAlphanum || c == '_' then .ok ()
  else
    .error (.error (.protocol ("invalid collation name " ++ StdLib.debugStr name ++
      " for a bulk insert column")))

/-- One column of the list. `format!` panics where `Display` fails. -/
def bulkColumnItem (collations : List (String × Option String)) (column : MetaDataColumn) :
    Except Fault String :=
  match column.display with
  | none => .error .panic
  | some item =>
    if column.base.ty.declaresCollation then
      match columnCollation column.colName collations with
      | none => .ok item
      | some collation => (validateCollationName collation).map fun _ => item ++ " COLLATE " ++ collation
    else .ok item

/-- `bulk_column_list`. -/
def bulkColumnList (columns : List MetaDataColumn) (collations : List (String × Option String)) :
    Except Fault String :=
  (columns.mapM (bulkColumnItem collations)).map fun items => String.intercalate ", " items

end Collations

/-- The SQL types of columns. Sizes are in bytes or, for `nchar` and `nvarchar`, in
units; a size of `none` is `max`. -/
inductive SqlType where
  | tinyint | smallint | int | bigint | bit | real | float | money | smallmoney | datetime
  | smalldatetime | uniqueidentifier | date | text | ntext | image | sqlVariant | xml
  | time (scale : ℕ)
  | datetime2 (scale : ℕ)
  | datetimeoffset (scale : ℕ)
  | binary (bytes : ℕ)
  | char (bytes : ℕ)
  | nchar (units : ℕ)
  | varbinary (bytes : Option ℕ)
  | varchar (bytes : Option ℕ)
  | nvarchar (units : Option ℕ)
  | decimal (precision scale : ℕ)
  | numeric (precision scale : ℕ)
  | udt (schema name : String)
  deriving DecidableEq, Repr

/-- The server's rule on names that need no brackets. -/
class TransactSql where
  regular : String → Bool

/-- The rule on names of ASCII letters, digits and underscores, without the
reserved words. -/
@[reducible] def TransactSql.ascii : TransactSql where
  regular name := match name.toList with
    | [] => false
    | c :: rest => (c.isAlpha || c == '_') && rest.all fun c => c.isAlphanum || c == '_'

def sized (name : String) (size : ℕ) : String := name ++ ("(" ++ (toString size ++ ")"))

def sizedOrMax (name : String) : Option ℕ → String
  | some size => sized name size
  | none => name ++ "(max)"

/-- A type with a scale, which is 7 where none is given. -/
def scaled (name : String) (scale : ℕ) : List String :=
  if scale = 7 then [name, sized name scale] else [sized name scale]

def withPrecision (name : String) (precision scale : ℕ) : String :=
  name ++ ("(" ++ (toString precision ++ ("," ++ (toString scale ++ ")"))))

section Meaning

variable [TransactSql]

/-- The texts that denote a type in a statement. -/
def SqlType.spellings : SqlType → List String
  | tinyint => ["tinyint"]
  | smallint => ["smallint"]
  | int => ["int"]
  | bigint => ["bigint"]
  | bit => ["bit"]
  | real => ["real"]
  | float => ["float"]
  | money => ["money"]
  | smallmoney => ["smallmoney"]
  | datetime => ["datetime"]
  | smalldatetime => ["smalldatetime"]
  | uniqueidentifier => ["uniqueidentifier"]
  | date => ["date"]
  | text => ["text"]
  | ntext => ["ntext"]
  | image => ["image"]
  | sqlVariant => ["sql_variant"]
  | xml => ["xml"]
  | time scale => scaled "time" scale
  | datetime2 scale => scaled "datetime2" scale
  | datetimeoffset scale => scaled "datetimeoffset" scale
  | binary bytes => [sized "binary" bytes]
  | char bytes => [sized "char" bytes]
  | nchar units => [sized "nchar" units]
  | varbinary bytes => [sizedOrMax "varbinary" bytes]
  | varchar bytes => [sizedOrMax "varchar" bytes]
  | nvarchar units => [sizedOrMax "nvarchar" units]
  | decimal precision scale => [withPrecision "decimal" precision scale]
  | numeric precision scale => [withPrecision "numeric" precision scale]
  | udt schema name =>
    if TransactSql.regular schema && TransactSql.regular name then [schema ++ "." ++ name] else []

/-- A length of type information in bytes, where 0xffff stands for `max`. -/
def bytesOrMax (len : ℕ) : Option ℕ := if len = 0xffff then none else some len

/-- The type that a description stands for. The null type is the `int` of a NULL
without a type; lengths and scales that a type does not have stand for nothing. -/
def TypeInfo.sqlType : TypeInfo → Option SqlType
  | .fixedLen ty =>
    match ty with
    | .int1 => some .tinyint
    | .bit => some .bit
    | .int2 => some .smallint
    | .int4 => some .int
    | .datetime4 => some .smalldatetime
    | .float4 => some .real
    | .money => some .money
    | .datetime => some .datetime
    | .float8 => some .float
    | .money4 => some .smallmoney
    | .int8 => some .bigint
    | .null => some .int
  | .varLenSized ctx =>
    match ctx.type with
    | .bitn => if ctx.len = 1 then some .bit else none
    | .guid => if ctx.len = 16 then some .uniqueidentifier else none
    | .intn =>
      if ctx.len = 1 then some .tinyint
      else if ctx.len = 2 then some .smallint
      else if ctx.len = 4 then some .int
      else if ctx.len = 8 then some .bigint
      else none
    | .floatn => if ctx.len = 4 then some .real else if ctx.len = 8 then some .float else none
    | .money => if ctx.len = 4 then some .smallmoney else if ctx.len = 8 then some .money else none
    | .datetimen =>
      if ctx.len = 4 then some .smalldatetime else if ctx.len = 8 then some .datetime else none
    | .daten => some .date
    | .timen => if ctx.len ≤ 7 then some (.time ctx.len) else none
    | .datetime2 => if ctx.len ≤ 7 then some (.datetime2 ctx.len) else none
    | .datetimeOffsetn => if ctx.len ≤ 7 then some (.datetimeoffset ctx.len) else none
    | .bigBinary => (bytesOrMax ctx.len).map .binary
    | .bigChar => (bytesOrMax ctx.len).map .char
    | .bigVarBin => some (.varbinary (bytesOrMax ctx.len))
    | .bigVarChar => some (.varchar (bytesOrMax ctx.len))
    | .nchar =>
      if ctx.len % 2 = 0 then (bytesOrMax ctx.len).map fun len => .nchar (len / 2) else none
    | .nvarchar =>
      if ctx.len = 0xffff then some (.nvarchar none)
      else if ctx.len % 2 = 0 then some (.nvarchar (some (ctx.len / 2)))
      else none
    | .text => some .text
    | .ntext => some .ntext
    | .image => some .image
    | .ssVariant => some .sqlVariant
    | .decimaln | .numericn | .xml | .udt => none
  | .varLenSizedPrecision ty _ precision scale =>
    match ty with
    | .decimaln => some (.decimal precision.toNat scale.toNat)
    | .numericn => some (.numeric precision.toNat scale.toNat)
    | _ => none
  | .xml _ _ => some .xml
  | .udt info => some (.udt info.schemaName info.typeName)

/-- The descriptions whose text in a column list denotes what they stand for. -/
def TypeInfo.Declared : TypeInfo → Prop
  | .varLenSized ctx =>
    match ctx.type with
    | .bitn => ctx.len = 1
    | .guid => ctx.len = 16
    | .intn => ctx.len = 1 ∨ ctx.len = 2 ∨ ctx.len = 4 ∨ ctx.len = 8
    | .floatn | .money => ctx.len = 4 ∨ ctx.len = 8
    | .datetimen => ctx.len = 8
    | .timen | .datetimeOffsetn => ctx.len = 7
    | .datetime2 => ctx.len ≤ 7
    | .bigVarBin | .bigVarChar => ctx.len ≤ 8000 ∨ ctx.len = 0xffff
    | .bigBinary | .bigChar => ctx.len ≠ 0xffff
    | .nvarchar => ctx.len = 0 ∨ ctx.len = 0xffff
    | .nchar => ctx.len = 0
    | _ => True
  | .udt info => TransactSql.regular info.schemaName ∧ TransactSql.regular info.typeName
  | _ => True

/-- The text of a column denotes what its description stands for. -/
def TypeInfo.Denotes (ty : TypeInfo) (text : String) : Prop :=
  ∃ sql, ty.sqlType = some sql ∧ text ∈ sql.spellings

end Meaning

section Texts

theorem toString_inj {m n : ℕ} (heq : toString m = toString n) : m = n := by
  have hm : (toString m).toList = Nat.toDigits 10 m := Nat.toList_repr
  have hn : (toString n).toList = Nat.toDigits 10 n := Nat.toList_repr
  have hdigits : Nat.toDigits 10 m = Nat.toDigits 10 n := by rw [← hm, ← hn, heq]
  have hvalue := congrArg (fun digits => Nat.ofDigitChars 10 digits 0) hdigits
  simpa only [Nat.ofDigitChars_toDigits (show 1 < 10 by decide) (Nat.le_refl 10)] using hvalue

theorem sized_inj {name : String} {m n : ℕ} : sized name m = sized name n ↔ m = n := by
  constructor
  · intro heq
    rw [sized, sized, String.append_right_inj, String.append_right_inj, String.append_left_inj] at heq
    exact toString_inj heq
  · rintro rfl
    rfl

theorem text_of_ite {c : Prop} [Decidable c] {first second text : String}
    (htext : (if c then some first else some second) = some text) :
    text = if c then first else second := by
  split_ifs at htext ⊢ with h
  · exact (Option.some.inj htext).symm
  · exact (Option.some.inj htext).symm

theorem sized_eq {opening name : String} (hopening : opening = name ++ "(") (size : ℕ) :
    opening ++ toString size ++ ")" = sized name size := by
  rw [hopening, sized, String.append_assoc, String.append_assoc]

theorem withPrecision_eq {opening name : String} (hopening : opening = name ++ "(")
    (precision scale : ℕ) :
    opening ++ toString precision ++ "," ++ toString scale ++ ")" =
      withPrecision name precision scale := by
  rw [hopening, withPrecision]
  simp only [String.append_assoc]

theorem toString_ne_max (n : ℕ) : toString n ≠ "max" := by
  intro heq
  have hdigits : Nat.toDigits 10 n = "max".toList := by
    rw [← heq]
    exact Nat.toList_repr.symm
  have hmem : 'm' ∈ Nat.toDigits 10 n := by
    rw [hdigits]
    decide
  exact absurd (Nat.isDigit_of_mem_toDigits (by decide) (Nat.le_refl 10) hmem) (by decide)

theorem sized_ne_max (name : String) (n : ℕ) : sized name n ≠ name ++ "(max)" := by
  intro heq
  have hmax : "(max)" = "(" ++ ("max" ++ ")") := by decide
  rw [sized, hmax, String.append_right_inj, String.append_right_inj, String.append_left_inj] at heq
  exact toString_ne_max n heq

theorem ne_sized (name : String) (n : ℕ) : name ≠ sized name n := by
  intro heq
  have hlength := congrArg (fun text => text.toList.length) heq
  simp only [sized, String.toList_append, List.length_append] at hlength
  have hparen : "(".toList.length = 1 := by decide
  omega

theorem mem_scaled_iff {name : String} {scale : ℕ} : name ∈ scaled name scale ↔ scale = 7 := by
  rw [scaled]
  split_ifs with hseven
  · exact ⟨fun _ => hseven, fun _ => List.mem_cons_self⟩
  · rw [List.mem_singleton]
    exact ⟨fun heq => (ne_sized name scale heq).elim, fun h => (hseven h).elim⟩

theorem sized_mem_scaled {name : String} (scale : ℕ) : sized name scale ∈ scaled name scale := by
  rw [scaled]
  split_ifs
  · exact List.mem_cons_of_mem _ List.mem_cons_self
  · exact List.mem_cons_self

end Texts

section Declarations

variable [TransactSql]

theorem denotes_of {ty : TypeInfo} {sql : SqlType} {text : String} (hty : ty.sqlType = some sql) :
    ty.Denotes text ↔ text ∈ sql.spellings := by
  constructor
  · rintro ⟨other, hother, hmem⟩
    rw [hty] at hother
    rwa [Option.some.inj hother]
  · intro hmem
    exact ⟨sql, hty, hmem⟩

theorem not_denotes {ty : TypeInfo} {text : String} (hty : ty.sqlType = none) :
    ¬ ty.Denotes text := by
  rintro ⟨sql, hsql, -⟩
  rw [hty] at hsql
  cases hsql

/-- A type whose text gives no scale denotes the one with seven digits. -/
theorem unscaled_denotes_iff {ty : TypeInfo} {name : String} {len : ℕ} {make : ℕ → SqlType}
    (hty : ty.sqlType = if len ≤ 7 then some (make len) else none)
    (hspell : (make len).spellings = scaled name len) : ty.Denotes name ↔ len = 7 := by
  by_cases hlen : len ≤ 7
  · rw [if_pos hlen] at hty
    rw [denotes_of hty, hspell, mem_scaled_iff]
  · rw [if_neg hlen] at hty
    exact ⟨fun hdenotes => (not_denotes hty hdenotes).elim, fun h => (hlen (Nat.le_of_eq h)).elim⟩

theorem scaled_denotes_iff {ty : TypeInfo} {name : String} {len : ℕ} {make : ℕ → SqlType}
    (hty : ty.sqlType = if len ≤ 7 then some (make len) else none)
    (hspell : (make len).spellings = scaled name len) : ty.Denotes (sized name len) ↔ len ≤ 7 := by
  by_cases hlen : len ≤ 7
  · rw [if_pos hlen] at hty
    rw [denotes_of hty, hspell]
    exact ⟨fun _ => hlen, fun _ => sized_mem_scaled len⟩
  · rw [if_neg hlen] at hty
    exact ⟨fun hdenotes => (not_denotes hty hdenotes).elim, fun h => (hlen h).elim⟩

/-- The byte types that have a `max` form. -/
theorem varying_denotes_iff {ty : TypeInfo} {name : String} {len : ℕ} {make : Option ℕ → SqlType}
    (hty : ty.sqlType = some (make (bytesOrMax len)))
    (hspell : ∀ size, (make size).spellings = [sizedOrMax name size]) :
    ty.Denotes (if len ≤ 8000 then sized name len else name ++ "(max)") ↔
      len ≤ 8000 ∨ len = 0xffff := by
  rw [denotes_of hty, hspell, List.mem_singleton, bytesOrMax]
  by_cases hmax : len = 0xffff
  · rw [if_pos hmax, if_neg (by omega)]
    exact ⟨fun _ => .inr hmax, fun _ => rfl⟩
  · rw [if_neg hmax]
    by_cases hlen : len ≤ 8000
    · rw [if_pos hlen]
      exact ⟨fun _ => .inl hlen, fun _ => rfl⟩
    · rw [if_neg hlen]
      refine ⟨fun heq => (sized_ne_max name len heq.symm).elim, ?_⟩
      rintro (h | h)
      · exact (hlen h).elim
      · exact (hmax h).elim

/-- The byte types of a fixed size, which have no `max` form. -/
theorem fixed_denotes_iff {ty : TypeInfo} {name : String} {len : ℕ} {make : ℕ → SqlType}
    (hty : ty.sqlType = (bytesOrMax len).map make)
    (hspell : ∀ size, (make size).spellings = [sized name size]) :
    ty.Denotes (sized name len) ↔ len ≠ 0xffff := by
  rw [bytesOrMax] at hty
  by_cases hmax : len = 0xffff
  · rw [if_pos hmax] at hty
    exact ⟨fun hdenotes => (not_denotes hty hdenotes).elim, fun h => (h hmax).elim⟩
  · rw [if_neg hmax] at hty
    rw [denotes_of hty, hspell, List.mem_singleton]
    exact ⟨fun _ => hmax, fun _ => rfl⟩

theorem nvarchar_denotes_iff {len : ℕ} {collation : Option Collation} :
    (TypeInfo.varLenSized { type := .nvarchar, len := len, collation := collation }).Denotes
        (if len ≤ 4000 then sized "nvarchar" len else "nvarchar" ++ "(max)") ↔
      len = 0 ∨ len = 0xffff := by
  by_cases hmax : len = 0xffff
  · have hty : (TypeInfo.varLenSized { type := .nvarchar, len := len, collation }).sqlType =
        some (.nvarchar none) := if_pos hmax
    rw [denotes_of hty, if_neg (by omega)]
    exact ⟨fun _ => .inr hmax, fun _ => List.mem_singleton.mpr rfl⟩
  · by_cases heven : len % 2 = 0
    · have hty : (TypeInfo.varLenSized { type := .nvarchar, len := len, collation }).sqlType =
          some (.nvarchar (some (len / 2))) := (if_neg hmax).trans (if_pos heven)
      rw [denotes_of hty, SqlType.spellings, sizedOrMax, List.mem_singleton]
      by_cases hshort : len ≤ 4000
      · rw [if_pos hshort, sized_inj]
        omega
      · rw [if_neg hshort]
        exact ⟨fun heq => (sized_ne_max _ _ heq.symm).elim, fun h => by omega⟩
    · have hty : (TypeInfo.varLenSized { type := .nvarchar, len := len, collation }).sqlType =
          none := (if_neg hmax).trans (if_neg heven)
      exact ⟨fun hdenotes => (not_denotes hty hdenotes).elim, fun h => by omega⟩

theorem nchar_denotes_iff {len : ℕ} {collation : Option Collation} :
    (TypeInfo.varLenSized { type := .nchar, len := len, collation := collation }).Denotes
        (sized "nchar" len) ↔ len = 0 := by
  by_cases heven : len % 2 = 0
  · have hmax : len ≠ 0xffff := by omega
    have hty : (TypeInfo.varLenSized { type := .nchar, len := len, collation }).sqlType =
        some (.nchar (len / 2)) := by
      rw [TypeInfo.sqlType, if_pos heven, bytesOrMax, if_neg hmax]
      rfl
    rw [denotes_of hty, SqlType.spellings, List.mem_singleton, sized_inj]
    omega
  · have hty : (TypeInfo.varLenSized { type := .nchar, len := len, collation }).sqlType = none :=
      if_neg heven
    exact ⟨fun hdenotes => (not_denotes hty hdenotes).elim, fun h => by omega⟩

theorem denotes_single {ty : TypeInfo} {sql : SqlType} {text : String}
    (hty : ty.sqlType = some sql) (hspell : sql.spellings = [text]) : ty.Denotes text :=
  ⟨sql, hty, by rw [hspell]; exact List.mem_singleton.mpr rfl⟩

theorem intn_denotes_iff {len : ℕ} {collation : Option Collation} :
    (TypeInfo.varLenSized { type := .intn, len := len, collation := collation }).Denotes
        (if len = 1 then "tinyint" else if len = 2 then "smallint" else if len = 4 then "int"
          else "bigint") ↔ len = 1 ∨ len = 2 ∨ len = 4 ∨ len = 8 := by
  by_cases hone : len = 1
  · subst hone
    exact ⟨fun _ => .inl rfl, fun _ => denotes_single rfl rfl⟩
  by_cases htwo : len = 2
  · subst htwo
    exact ⟨fun _ => .inr (.inl rfl), fun _ => denotes_single rfl rfl⟩
  by_cases hfour : len = 4
  · subst hfour
    exact ⟨fun _ => .inr (.inr (.inl rfl)), fun _ => denotes_single rfl rfl⟩
  by_cases height : len = 8
  · subst height
    exact ⟨fun _ => .inr (.inr (.inr rfl)), fun _ => denotes_single rfl rfl⟩
  have hty : (TypeInfo.varLenSized { type := .intn, len := len, collation }).sqlType = none :=
    (if_neg hone).trans ((if_neg htwo).trans ((if_neg hfour).trans (if_neg height)))
  exact ⟨fun hdenotes => (not_denotes hty hdenotes).elim, fun h => by omega⟩

theorem twoWidths_denotes_iff {ty : TypeInfo} {len : ℕ} {small large : SqlType}
    {smallText largeText : String}
    (hty : ty.sqlType = if len = 4 then some small else if len = 8 then some large else none)
    (hsmall : small.spellings = [smallText]) (hlarge : large.spellings = [largeText]) :
    ty.Denotes (if len = 4 then smallText else largeText) ↔ len = 4 ∨ len = 8 := by
  by_cases hfour : len = 4
  · rw [if_pos hfour] at hty ⊢
    exact ⟨fun _ => .inl hfour, fun _ => denotes_single hty hsmall⟩
  · rw [if_neg hfour] at hty ⊢
    by_cases height : len = 8
    · rw [if_pos height] at hty
      exact ⟨fun _ => .inr height, fun _ => denotes_single hty hlarge⟩
    · rw [if_neg height] at hty
      exact ⟨fun hdenotes => (not_denotes hty hdenotes).elim, fun h => by omega⟩

/-- A type in two widths with the text of the wide one for both. -/
theorem wideText_denotes_iff {ty : TypeInfo} {len : ℕ} {small large : SqlType} {text : String}
    (hty : ty.sqlType = if len = 4 then some small else if len = 8 then some large else none)
    (hsmall : text ∉ small.spellings) (hlarge : large.spellings = [text]) :
    ty.Denotes text ↔ len = 8 := by
  by_cases hfour : len = 4
  · rw [if_pos hfour] at hty
    rw [denotes_of hty]
    exact ⟨fun hmem => (hsmall hmem).elim, fun h => by omega⟩
  · rw [if_neg hfour] at hty
    by_cases height : len = 8
    · rw [if_pos height] at hty
      exact ⟨fun _ => height, fun _ => denotes_single hty hlarge⟩
    · rw [if_neg height] at hty
      exact ⟨fun hdenotes => (not_denotes hty hdenotes).elim, fun h => (height h).elim⟩

theorem oneLength_denotes_iff {ty : TypeInfo} {len required : ℕ} {sql : SqlType} {text : String}
    (hty : ty.sqlType = if len = required then some sql else none)
    (hspell : sql.spellings = [text]) : ty.Denotes text ↔ len = required := by
  by_cases hlen : len = required
  · rw [if_pos hlen] at hty
    exact ⟨fun _ => hlen, fun _ => denotes_single hty hspell⟩
  · rw [if_neg hlen] at hty
    exact ⟨fun hdenotes => (not_denotes hty hdenotes).elim, fun h => (hlen h).elim⟩

/-- The sized types: the text denotes the description in the cases of `Declared` only. -/
theorem varLen_denotes_iff {ctx : VarLenContext} {text : String}
    (htext : (TypeInfo.varLenSized ctx).display = some text) :
    (TypeInfo.varLenSized ctx).Denotes text ↔ (TypeInfo.varLenSized ctx).Declared := by
  obtain ⟨type, len, collation⟩ := ctx
  cases type with
  | bitn | guid =>
    obtain rfl := Option.some.inj htext
    exact oneLength_denotes_iff rfl rfl
  | intn =>
    have heq : text = if len = 1 then "tinyint" else if len = 2 then "smallint" else
        if len = 4 then "int" else "bigint" := by
      apply Option.some.inj
      rw [← htext, apply_ite some, apply_ite some, apply_ite some]
      rfl
    rw [heq]
    exact intn_denotes_iff
  | floatn | money =>
    obtain rfl := text_of_ite htext
    exact twoWidths_denotes_iff rfl rfl rfl
  | datetimen =>
    obtain rfl := Option.some.inj htext
    refine wideText_denotes_iff rfl ?_ rfl
    rw [SqlType.spellings, List.mem_singleton]
    decide
  | timen | datetimeOffsetn =>
    obtain rfl := Option.some.inj htext
    exact unscaled_denotes_iff rfl rfl
  | datetime2 =>
    obtain rfl := Option.some.inj htext
    rw [sized_eq (show "datetime2(" = "datetime2" ++ "(" by decide)]
    exact scaled_denotes_iff rfl rfl
  | bigVarBin =>
    obtain rfl := text_of_ite htext
    rw [sized_eq (show "varbinary(" = "varbinary" ++ "(" by decide),
      show "varbinary(max)" = "varbinary" ++ "(max)" by decide]
    exact varying_denotes_iff rfl fun _ => rfl
  | bigVarChar =>
    obtain rfl := text_of_ite htext
    rw [sized_eq (show "varchar(" = "varchar" ++ "(" by decide),
      show "varchar(max)" = "varchar" ++ "(max)" by decide]
    exact varying_denotes_iff rfl fun _ => rfl
  | bigBinary =>
    obtain rfl := Option.some.inj htext
    rw [sized_eq (show "binary(" = "binary" ++ "(" by decide)]
    exact fixed_denotes_iff rfl fun _ => rfl
  | bigChar =>
    obtain rfl := Option.some.inj htext
    rw [sized_eq (show "char(" = "char" ++ "(" by decide)]
    exact fixed_denotes_iff rfl fun _ => rfl
  | nvarchar =>
    obtain rfl := text_of_ite htext
    rw [sized_eq (show "nvarchar(" = "nvarchar" ++ "(" by decide),
      show "nvarchar(max)" = "nvarchar" ++ "(max)" by decide]
    exact nvarchar_denotes_iff
  | nchar =>
    obtain rfl := Option.some.inj htext
    rw [sized_eq (show "nchar(" = "nchar" ++ "(" by decide)]
    exact nchar_denotes_iff
  | text | ntext | image | daten | ssVariant =>
    obtain rfl := Option.some.inj htext
    exact ⟨fun _ => trivial, fun _ => denotes_single rfl rfl⟩
  | decimaln | numericn | xml | udt => cases htext

/-- The text of a description that has been read denotes it in the cases of `Declared` only. -/
theorem display_denotes_iff {env : Context} {bytes : List UInt8} {ty : TypeInfo} {text : String}
    (hreads : TypeInfo.decode.Reads env bytes ty) (htext : ty.display = some text) :
    ty.Denotes text ↔ ty.Declared := by
  cases ty with
  | fixedLen ty =>
    refine ⟨fun _ => trivial, fun _ => ?_⟩
    cases ty <;>
    · obtain rfl := Option.some.inj htext
      exact denotes_single rfl rfl
  | varLenSized ctx => exact varLen_denotes_iff htext
  | varLenSizedPrecision ty size precision scale =>
    refine ⟨fun _ => trivial, fun _ => ?_⟩
    rcases (TypeInfo.precision_of_decode hreads).1 with rfl | rfl
    · obtain rfl := Option.some.inj htext
      rw [withPrecision_eq (show "decimal(" = "decimal" ++ "(" by decide)]
      exact denotes_single rfl rfl
    · obtain rfl := Option.some.inj htext
      rw [withPrecision_eq (show "numeric(" = "numeric" ++ "(" by decide)]
      exact denotes_single rfl rfl
  | xml schema size =>
    obtain rfl := Option.some.inj htext
    exact ⟨fun _ => trivial, fun _ => denotes_single rfl rfl⟩
  | udt info =>
    obtain rfl := Option.some.inj htext
    rw [denotes_of rfl, SqlType.spellings]
    by_cases hregular : TransactSql.regular info.schemaName && TransactSql.regular info.typeName
    · rw [if_pos hregular, List.mem_singleton]
      exact ⟨fun _ => (Bool.and_eq_true _ _).mp hregular, fun _ => rfl⟩
    · rw [if_neg hregular]
      refine ⟨fun hmem => (List.not_mem_nil hmem).elim, fun h => ?_⟩
      exact (hregular ((Bool.and_eq_true _ _).mpr h)).elim

end Declarations

section Lists

theorem intercalate_item (sep : String) {items : List String} {item : String}
    (hitem : item ∈ items) : ∃ front back, sep.intercalate items = front ++ item ++ back := by
  obtain ⟨before, after, rfl⟩ := List.append_of_mem hitem
  have hlast : ∃ back, sep.intercalate (item :: after) = item ++ back := by
    cases after with
    | nil => exact ⟨"", by rw [String.intercalate_singleton, String.append_empty]⟩
    | cons next after =>
      exact ⟨sep ++ sep.intercalate (next :: after), by
        rw [String.intercalate_cons_cons, String.append_assoc]⟩
  obtain ⟨back, hback⟩ := hlast
  by_cases hbefore : before = []
  · subst hbefore
    exact ⟨"", back, by rw [List.nil_append, hback, String.empty_append]⟩
  · refine ⟨sep.intercalate before ++ sep, back, ?_⟩
    rw [String.intercalate_append_of_ne_nil hbefore (List.cons_ne_nil _ _), hback]
    simp only [String.append_assoc]

variable [StdLib]

theorem bulkColumnItem_text {collations : List (String × Option String)} {column : MetaDataColumn}
    {text item : String} (htext : column.display = some text)
    (hitem : bulkColumnItem collations column = .ok item) :
    ∃ collate, item = text ++ collate ∧
      (collate = "" ∨ ∃ name, collate = " COLLATE " ++ name) := by
  rw [bulkColumnItem, htext] at hitem
  by_cases hdeclares : column.base.ty.declaresCollation
  · replace hitem := (if_pos hdeclares).symm.trans hitem
    cases hcollation : columnCollation column.colName collations with
    | none =>
      rw [hcollation] at hitem
      obtain rfl := Except.ok.inj hitem
      exact ⟨"", String.append_empty.symm, .inl rfl⟩
    | some collation =>
      rw [hcollation] at hitem
      dsimp only at hitem
      cases hvalid : validateCollationName collation with
      | error fault =>
        rw [hvalid] at hitem
        cases hitem
      | ok _ =>
        rw [hvalid] at hitem
        obtain rfl := Except.ok.inj hitem
        exact ⟨" COLLATE " ++ collation, String.append_assoc, .inr ⟨collation, rfl⟩⟩
  · obtain rfl := Except.ok.inj ((if_neg hdeclares).symm.trans hitem)
    exact ⟨"", String.append_empty.symm, .inl rfl⟩

theorem bulkColumnItem_of_mapM {collations : List (String × Option String)}
    {columns : List MetaDataColumn} {items : List String}
    (hitems : columns.mapM (bulkColumnItem collations) = .ok items)
    {column : MetaDataColumn} (hcolumn : column ∈ columns) :
    ∃ item ∈ items, bulkColumnItem collations column = .ok item := by
  induction columns generalizing items with
  | nil => exact absurd hcolumn List.not_mem_nil
  | cons head columns ih =>
    rw [List.mapM_cons] at hitems
    cases hhead : bulkColumnItem collations head with
    | error fault =>
      rw [hhead] at hitems
      cases hitems
    | ok first =>
      cases hrest : columns.mapM (bulkColumnItem collations) with
      | error fault =>
        rw [hhead, hrest] at hitems
        cases hitems
      | ok rest =>
        rw [hhead, hrest] at hitems
        obtain rfl := Except.ok.inj hitems
        rcases List.mem_cons.mp hcolumn with rfl | hmem
        · exact ⟨first, List.mem_cons_self, hhead⟩
        · obtain ⟨item, hitem, hcolumn⟩ := ih hrest hmem
          exact ⟨item, List.mem_cons_of_mem _ hitem, hcolumn⟩

/-- A column stands in the list with its text, and a collation behind it where one is given. -/
theorem bulkColumnList_column {collations : List (String × Option String)}
    {columns : List MetaDataColumn} {list : String}
    (hlist : bulkColumnList columns collations = .ok list) {column : MetaDataColumn}
    (hcolumn : column ∈ columns) {text : String} (htext : column.display = some text) :
    ∃ front collate back, list = front ++ (text ++ collate) ++ back ∧
      (collate = "" ∨ ∃ name, collate = " COLLATE " ++ name) := by
  rw [bulkColumnList] at hlist
  cases hitems : columns.mapM (bulkColumnItem collations) with
  | error fault =>
    rw [hitems] at hlist
    cases hlist
  | ok items =>
    rw [hitems] at hlist
    obtain rfl := Except.ok.inj hlist
    obtain ⟨item, hmem, hitem⟩ := bulkColumnItem_of_mapM hitems hcolumn
    obtain ⟨front, back, hjoin⟩ := intercalate_item ", " hmem
    obtain ⟨collate, rfl, hform⟩ := bulkColumnItem_text htext hitem
    exact ⟨front, collate, back, hjoin, hform⟩

end Lists

section Agreement

theorem encodeColumns_append (before after : List MetaDataColumn) :
    TokenColMetaData.encodeColumns (before ++ after) =
      (TokenColMetaData.encodeColumns before).bind fun _ =>
        TokenColMetaData.encodeColumns after := by
  induction before with
  | nil => rfl
  | cons column before ih =>
    simp only [List.cons_append, TokenColMetaData.encodeColumns, Written.bind_eq, ih,
      Written.bind_assoc]

theorem encode_column {before after : List MetaDataColumn} {column : MetaDataColumn}
    {front sent : List UInt8} (hbefore : TokenColMetaData.encodeColumns before = .done front ())
    (hsent : column.base.ty.encode = .done sent ()) :
    ∃ more, TokenColMetaData.encode ⟨before ++ column :: after⟩ =
      Written.after (0x81 :: toLe 2 (UInt16.ofNat (before ++ column :: after).length).toNat ++
        front ++ toLe 4 0 ++ toLe 2 column.base.flags.toNat ++ sent) more := by
  simp only [TokenColMetaData.encode, encodeColumns_append, hbefore, TokenColMetaData.encodeColumns,
    MetaDataColumn.encode, BaseMetaDataColumn.encode, hsent, Written.bind_eq, putU8_eq,
    putU16Le_eq, putU32Le_eq, Written.done_bind, Written.after_bind, Written.after_after]
  exact ⟨_, by simp only [List.append_assoc, List.cons_append, List.nil_append]; rfl⟩

variable [TransactSql] [StdLib]

/-- A column is described alike by its text, wherever it stands in a column list,
and by the type information, wherever it stands in the metadata. -/
def MetaDataColumn.DescribedAlike (env : Context) (column : MetaDataColumn) : Prop :=
  ∃ text sent info,
    column.display = some (bracketed column.colName ++ " " ++ text) ∧
    (∀ columns collations list, column ∈ columns → bulkColumnList columns collations = .ok list →
      ∃ front collate back,
        list = front ++ (bracketed column.colName ++ " " ++ text ++ collate) ++ back ∧
        (collate = "" ∨ ∃ name, collate = " COLLATE " ++ name)) ∧
    (∀ before after front, TokenColMetaData.encodeColumns before = .done front () →
      ∃ more, TokenColMetaData.encode ⟨before ++ column :: after⟩ =
        Written.after (0x81 :: toLe 2 (UInt16.ofNat (before ++ column :: after).length).toNat ++
          front ++ toLe 4 0 ++ toLe 2 column.base.flags.toNat ++ sent) more) ∧
    TypeInfo.decode.run env sent = .done info [] ∧ info.Denotes text

/-- What a column is described as by the metadata is its own description. -/
theorem DescribedAlike.denotes {env : Context} {bytes : List UInt8} {column : MetaDataColumn}
    {ty : String} (hreads : TypeInfo.decode.Reads env bytes column.base.ty)
    (hty : column.base.ty.display = some ty) (halike : column.DescribedAlike env) :
    column.base.ty.Denotes ty := by
  obtain ⟨text, sent, info, htext, -, hencode, hdecode, hdenotes⟩ := halike
  have heq : text = ty := by
    rw [MetaDataColumn.display, hty] at htext
    exact (String.append_right_inj _).mp (Option.some.inj htext).symm
  subst heq
  -- Both descriptions are read from the same bytes of the metadata of this column alone.
  obtain ⟨own, hown, hagain, -⟩ := TypeInfo.encode_of_decode hreads
  obtain ⟨more, hmore⟩ := hencode [] [] [] rfl
  obtain ⟨rest, hrest⟩ := @encode_column [] [] column [] own rfl hown
  have houtput := congrArg Written.output (hmore.symm.trans hrest)
  have hsame : sent ++ more.output = own ++ rest.output := by
    simpa only [Written.after, List.append_assoc, List.append_cancel_left_eq, List.cons_append,
      List.cons.injEq, true_and] using houtput
  have hinfo := Reads.run_append hdecode more.output
  rw [hsame, Reads.run_append hagain rest.output] at hinfo
  obtain ⟨hinfo, -⟩ := Outcome.done.inj hinfo
  rwa [hinfo]

end Agreement

/-- The column list and the metadata describe a column alike if and only if its
description is one of those in `Declared`: a national character type of no
characters or of `max`, a time or an offset with seven digits, a wide `datetimen`,
a byte type within its limits, a length that its type has. -/
theorem column_described_iff [TransactSql] [StdLib] (env : Context) (bytes rest : List UInt8)
    (column : MetaDataColumn)
    (hdecode : TypeInfo.decode.run env bytes = .done column.base.ty rest)
    (hdisplay : column.display.isSome) :
    column.DescribedAlike env ↔ column.base.ty.Declared := by
  obtain ⟨used, -, hreads⟩ := reads_of_run hdecode
  obtain ⟨ty, hty⟩ : ∃ ty, column.base.ty.display = some ty := by
    rw [MetaDataColumn.display, Option.isSome_map] at hdisplay
    exact Option.isSome_iff_exists.mp hdisplay
  rw [← display_denotes_iff hreads hty]
  constructor
  · exact DescribedAlike.denotes hreads hty
  · intro hdenotes
    have htext : column.display = some (bracketed column.colName ++ " " ++ ty) := by
      rw [MetaDataColumn.display, hty]
      rfl
    obtain ⟨sent, hsent, hagain, -⟩ := TypeInfo.encode_of_decode hreads
    refine ⟨ty, sent, column.base.ty, htext, ?_, ?_, hagain, hdenotes⟩
    · intro columns collations list hcolumn hlist
      exact bulkColumnList_column hlist hcolumn htext
    · intro before after front hbefore
      exact encode_column hbefore hsent

/-- A column of eight-byte integers. -/
theorem column_described_iff_bigint :
    (MetaDataColumn.mk ⟨1, .varLenSized ⟨.intn, 8, none⟩, none⟩ "id").display = some "[id] bigint" ∧
      @MetaDataColumn.DescribedAlike .ascii .exact .new
        (.mk ⟨1, .varLenSized ⟨.intn, 8, none⟩, none⟩ "id") := by
  refine ⟨by decide, ?_⟩
  refine (@column_described_iff .ascii .exact .new [0x26, 8] [] _ rfl (by decide)).mpr ?_
  exact .inr (.inr (.inr rfl))

/-- A column of at most 50 characters is announced with a length of 100 bytes and
declared with 100 characters. -/
theorem column_described_differently :
    (MetaDataColumn.mk ⟨1, .varLenSized ⟨.nvarchar, 100, some ⟨13632521, 52⟩⟩, none⟩ "name").display =
        some "[name] nvarchar(100)" ∧
      TypeInfo.decode.run .new [0xE7, 100, 0, 9, 4, 208, 0, 52] =
        .done (.varLenSized ⟨.nvarchar, 100, some ⟨13632521, 52⟩⟩) [] ∧
      ¬ @MetaDataColumn.DescribedAlike .ascii .exact .new
        (.mk ⟨1, .varLenSized ⟨.nvarchar, 100, some ⟨13632521, 52⟩⟩, none⟩ "name") := by
  have hreads : TypeInfo.decode.Reads .new [0xE7, 100, 0, 9, 4, 208, 0, 52]
      (.varLenSized ⟨.nvarchar, 100, some ⟨13632521, 52⟩⟩) := rfl
  refine ⟨by decide, hreads, ?_⟩
  intro halike
  obtain ⟨sql, hsql, hmem⟩ := @DescribedAlike.denotes .ascii .exact _ _ _ "nvarchar(100)" hreads
    (by decide) halike
  obtain rfl := Option.some.inj hsql
  exact absurd hmem (by decide)

end Tiberius
