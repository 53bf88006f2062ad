import Tiberius.Error
import Tiberius.Machine.Integers
import Tiberius.Text.Doubled

/-!
Names of tables, columns and types in the text of a statement. They are quoted in
brackets, split at the dots between their parts, and checked before they are put into
a statement as they are.
-/

namespace Tiberius

open Machine

/-- The letters and digits of Unicode, as `char::is_alphanumeric` knows them. -/
class UnicodeTables where
  isAlphanumeric : Char → Bool

/-- The table of ASCII alone. -/
@[reducible] def UnicodeTables.ascii : UnicodeTables where
  isAlphanumeric c := c.isAlphanum

/-- A name in brackets, with its closing brackets doubled. -/
def quoteIdentifier (name : String) : String :=
  "[" ++ String.ofList (Doubled.double ']' name.toList) ++ "]"

/-- The loop over the characters of an identifier. The part that is read stands behind
those that have been read. -/
def splitParts : Bool → List (List Char) → List Char → List Char → List (List Char)
  | _, parts, part, [] => parts ++ [part]
  | true, parts, part, ']' :: ']' :: rest => splitParts true parts (part ++ [']']) rest
  | true, parts, part, ']' :: rest => splitParts false parts part rest
  | true, parts, part, c :: rest => splitParts true parts (part ++ [c]) rest
  | false, parts, part, '[' :: rest => splitParts true parts part rest
  | false, parts, part, '.' :: rest => splitParts false (parts ++ [part]) [] rest
  | false, parts, part, c :: rest => splitParts false parts (part ++ [c]) rest

theorem splitParts_close {parts : List (List Char)} {part rest : List Char}
    (hrest : rest.head? ≠ some ']') :
    splitParts true parts part (']' :: rest) = splitParts false parts part rest := by
  rw [splitParts]
  rintro more rfl
  exact hrest rfl

theorem splitParts_inside {parts : List (List Char)} {part rest : List Char} {c : Char}
    (hc : c ≠ ']') :
    splitParts true parts part (c :: rest) = splitParts true parts (part ++ [c]) rest := by
  rw [splitParts]
  · intro more h
    exact absurd h hc
  · exact hc

theorem splitParts_outside {parts : List (List Char)} {part rest : List Char} {c : Char}
    (hopening : c ≠ '[') (hdot : c ≠ '.') :
    splitParts false parts part (c :: rest) = splitParts false parts (part ++ [c]) rest := by
  rw [splitParts]
  · exact hopening
  · exact hdot

def splitMultipartIdentifier (ident : String) : List String :=
  (splitParts false [] [] ident.toList).map String.ofList

/-- A part counted from the last one; an absent part is the empty text. -/
def partFromEnd (parts : List String) (fromEnd : ℕ) : String :=
  if fromEnd + 1 ≤ parts.length then (parts[parts.length - (fromEnd + 1)]?).getD "" else ""

def isAsciiControl (c : Char) : Bool := c.toNat < 0x20 || c.toNat == 0x7F

def rejectIdentifier {α : Type} (what reason : String) : Except Fault α :=
  .error (.error (.bulkInput (what ++ " identifier " ++ reason)))

section

variable [UnicodeTables]

/-- The characters that a name may have outside of brackets, apart from parentheses. -/
def isIdentifierChar (c : Char) : Bool :=
  UnicodeTables.isAlphanumeric c || ['_', '.', '@', '#', ',', ' ', '*'].contains c

/-- The loop of the check: in brackets or not, the open parentheses, which are counted
in 32 bits, and the characters that are left. -/
def validateChars (build : Build) (what : String) : Bool → ℕ → List Char → Except Fault Unit
  | true, _, [] => rejectIdentifier what "has an unterminated `[` bracket-quoted segment"
  | false, depth, [] =>
    if depth ≠ 0 then rejectIdentifier what "contains an unbalanced `(`" else .ok ()
  | true, depth, ']' :: ']' :: rest => validateChars build what true depth rest
  | true, depth, ']' :: rest =>
    if rest.head? = none ∨ rest.head? = some '.' then validateChars build what false depth rest
    else rejectIdentifier what "has trailing characters after a bracket-quoted segment"
  | true, depth, _ :: rest => validateChars build what true depth rest
  | false, depth, c :: rest =>
    if c = '[' then validateChars build what true depth rest
    else if c = ']' then rejectIdentifier what "contains an unbalanced `]` bracket"
    else if c = '(' then
      match build.plainUnsigned 32 (depth + 1) with
      | some depth => validateChars build what false depth rest
      | none => .error .panic
    else if c = ')' then
      if depth = 0 then rejectIdentifier what "contains an unbalanced `)`"
      else if depth - 1 = 0 ∧ rest ≠ [] then
        rejectIdentifier what "has trailing characters after a closing `)`"
      else validateChars build what false (depth - 1) rest
    else if (c = ' ' ∨ c = ',') ∧ depth = 0 then
      rejectIdentifier what "contains a disallowed character"
    else if isIdentifierChar c then validateChars build what false depth rest
    else rejectIdentifier what "contains a disallowed character"

theorem validateChars_close {build : Build} {what : String} {depth : ℕ} {rest : List Char}
    (hrest : rest.head? ≠ some ']') :
    validateChars build what true depth (']' :: rest) =
      if rest.head? = none ∨ rest.head? = some '.' then validateChars build what false depth rest
      else rejectIdentifier what "has trailing characters after a bracket-quoted segment" := by
  rw [validateChars]
  rintro more rfl
  exact hrest rfl

theorem validateChars_inside {build : Build} {what : String} {depth : ℕ} {c : Char}
    {rest : List Char} (hc : c ≠ ']') :
    validateChars build what true depth (c :: rest) =
      validateChars build what true depth rest := by
  rw [validateChars]
  · intro more h
    exact absurd h hc
  · exact hc

def validateSqlIdentifier (build : Build) (what ident : String) : Except Fault Unit :=
  if ident.toList.any isAsciiControl then
    rejectIdentifier what "must not contain NUL or control characters"
  else validateChars build what false 0 ident.toList

def validateBulkTableIdentifier (build : Build) (table : String) : Except Fault Unit :=
  validateSqlIdentifier build "bulk insert table" table

def validateBulkColumnIdentifier (build : Build) (column : String) : Except Fault Unit :=
  validateSqlIdentifier build "bulk insert column" column

def validateDbTypeIdentifier (build : Build) (dbType : String) : Except Fault Unit :=
  validateSqlIdentifier build "TVP db_type" dbType

end

end Tiberius
