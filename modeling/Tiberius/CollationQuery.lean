import Tiberius.Context
import Tiberius.SqlIdentifier

/-!
The statement that asks for the collations of a table's columns. The name of the
table is in it as text: its parts are taken apart, quoted one by one in brackets, and
put into a literal between single quotes, so two ways of quoting are nested.
-/

namespace Tiberius

section Call

variable (table : String) (version : FeatureLevel)

/-- The procedure in the database of the table; a temporary table is in `tempdb`. -/
def collationsCall : String :=
  let parts := splitMultipartIdentifier table
  let catalog := partFromEnd parts 2
  (if catalog.isEmpty then
    if (partFromEnd parts 0).toList.head? = some '#' then "tempdb" else ""
  else quoteIdentifier catalog) ++ ".." ++
    (if FeatureLevel.sqlServer2008.toU32 ≤ version.toU32 then "sp_tablecollations_100"
    else "sp_tablecollations_90")

/-- A part in the literal: its quotes are doubled first, and its brackets then. -/
def literalPart (part : String) : String :=
  if part.isEmpty then ""
  else quoteIdentifier (String.ofList (Doubled.double '\'' part.toList))

def collationsLiteral : String :=
  literalPart (partFromEnd (splitMultipartIdentifier table) 1) ++ "." ++
    literalPart (partFromEnd (splitMultipartIdentifier table) 0)

def tableCollationsSql : String :=
  "EXEC " ++ collationsCall table version ++ " N'" ++ collationsLiteral table ++ "'"

end Call

section Split

variable {parts : List (List Char)} {rest : List Char}

/-- A quoted name is read into the part up to its closing bracket. -/
theorem splitParts_double (hrest : rest.head? ≠ some ']') (name : List Char) : ∀ part,
    splitParts true parts part (Doubled.double ']' name ++ ']' :: rest) =
      splitParts false parts (part ++ name) rest := by
  induction name with
  | nil =>
    intro part
    rw [List.append_nil]
    exact splitParts_close hrest
  | cons c name ih =>
    intro part
    rw [Doubled.double_cons, List.append_assoc]
    split_ifs with hc
    · subst hc
      have hmore := ih (part ++ [']'])
      rw [List.append_assoc, List.singleton_append] at hmore
      exact hmore
    · have hmore := ih (part ++ [c])
      rw [List.append_assoc, List.singleton_append] at hmore
      exact (splitParts_inside hc).trans hmore

theorem quoteIdentifier_toList (name : String) :
    (quoteIdentifier name).toList = '[' :: (Doubled.double ']' name.toList ++ [']']) := by
  simp [quoteIdentifier]

theorem splitParts_quoted (name : String) (hrest : rest.head? ≠ some ']') :
    splitParts false parts [] ((quoteIdentifier name).toList ++ rest) =
      splitParts false parts name.toList rest := by
  rw [quoteIdentifier_toList, List.cons_append, List.append_assoc]
  exact splitParts_double hrest name.toList []

/-- Quoted names are told apart by the dots between them. -/
theorem splitParts_join (names : List String) : ∀ parts first,
    splitParts false parts [] (".".intercalate ((first :: names).map quoteIdentifier)).toList =
      parts ++ (first :: names).map String.toList := by
  induction names with
  | nil =>
    intro parts first
    have hquoted := @splitParts_quoted parts [] first nofun
    rw [List.append_nil] at hquoted
    rw [List.map_singleton, String.intercalate_singleton, hquoted]
    rfl
  | cons second names ih =>
    intro parts first
    rw [List.map_cons, List.map_cons, String.intercalate_cons_cons, String.toList_append,
      String.toList_append, List.append_assoc]
    have hquoted := @splitParts_quoted parts
      ('.' :: (".".intercalate ((second :: names).map quoteIdentifier)).toList) first nofun
    have hmore := ih (parts ++ [first.toList]) second
    rw [List.append_assoc, List.singleton_append] at hmore
    exact hquoted.trans hmore

theorem split_join (first : String) (names : List String) :
    splitMultipartIdentifier (".".intercalate ((first :: names).map quoteIdentifier)) =
      first :: names := by
  rw [splitMultipartIdentifier, splitParts_join, List.nil_append, List.map_map]
  simp [Function.comp_def]

end Split

section Literal

/-- A part as the procedure is to see it. -/
def quotedOrEmpty (part : String) : String := if part.isEmpty then "" else quoteIdentifier part

/-- The schema and the table that the literal is to name: the last part but one of the
name, and the last one, either of which may be missing. -/
def collationsTable (table : String) : String :=
  quotedOrEmpty ((splitMultipartIdentifier table).dropLast.getLast?.getD "") ++ "." ++
    quotedOrEmpty ((splitMultipartIdentifier table).getLast?.getD "")

theorem partFromEnd_last (parts : List String) :
    partFromEnd parts 0 = parts.getLast?.getD "" := by
  rw [List.getLast?_eq_getElem?]
  by_cases hparts : 0 + 1 ≤ parts.length
  · rw [partFromEnd, if_pos hparts, Nat.zero_add]
  · have hnil : parts = [] := List.length_eq_zero_iff.mp (by omega)
    subst hnil
    rfl

theorem partFromEnd_before_last (parts : List String) :
    partFromEnd parts 1 = parts.dropLast.getLast?.getD "" := by
  rw [List.getLast?_eq_getElem?, List.length_dropLast, List.getElem?_dropLast]
  by_cases hparts : 1 + 1 ≤ parts.length
  · have hindex : parts.length - (1 + 1) = parts.length - 1 - 1 := by omega
    rw [partFromEnd, if_pos hparts, hindex, if_pos (by omega)]
  · rw [partFromEnd, if_neg hparts, if_neg (by omega)]
    rfl

/-- The brackets may be put around the doubled quotes, or the quotes doubled behind. -/
theorem literalPart_toList (part : String) :
    (literalPart part).toList = Doubled.double '\'' (quotedOrEmpty part).toList := by
  unfold literalPart quotedOrEmpty
  split_ifs
  · rfl
  · rw [quoteIdentifier_toList, quoteIdentifier_toList, String.toList_ofList,
      Doubled.double_comm (by decide), Doubled.double_cons, Doubled.double_append]
    rfl

theorem collationsLiteral_toList (table : String) :
    (collationsLiteral table).toList = Doubled.double '\'' (collationsTable table).toList := by
  rw [collationsLiteral, collationsTable, partFromEnd_last, partFromEnd_before_last,
    String.toList_append, String.toList_append,
    String.toList_append, String.toList_append, literalPart_toList, literalPart_toList,
    Doubled.double_append, Doubled.double_append]
  rfl

/-- Quoted names are split into what they were quoted from. And the literal in the
statement ends at its own closing quote, whatever the name of the table, and it is the
quoted schema and table once its quotes are single again. -/
theorem collation_names :
    (∀ first names, splitMultipartIdentifier
      (".".intercalate ((first :: names).map quoteIdentifier)) = first :: names) ∧
    ∀ table version, ∃ literal : List Char,
      (tableCollationsSql table version).toList =
        "EXEC ".toList ++ (collationsCall table version).toList ++ " N'".toList ++ literal ++
          ['\''] ∧
      literal = Doubled.double '\'' (collationsTable table).toList ∧
      ∀ statement : List Char, statement.head? ≠ some '\'' →
        Doubled.scan '\'' (literal ++ '\'' :: statement) =
          some ((collationsTable table).toList, statement) := by
  refine ⟨split_join, fun table version => ⟨_, ?_, rfl, fun statement hstatement => ?_⟩⟩
  · rw [tableCollationsSql, String.toList_append, String.toList_append, String.toList_append,
      String.toList_append, collationsLiteral_toList]
    rfl
  · exact Doubled.scan_double hstatement _

end Literal

end Tiberius
