import Mathlib.Data.List.TakeWhile
import Tiberius.IdentifierGrammar
import Tiberius.TypeInfoTvp

/-!
The name of the type of a table-valued parameter. The statement that asks for its
columns has the name as the caller wrote it, with brackets and all. The parameter
itself has the schema and the name, cut at the first dot.
-/

namespace Tiberius

open Machine Bracketed

/-- The first separator cuts a text in two, or there is none. -/
theorem splitOnce_cases (text : String) (separator : Char) :
    (separator ∉ text.toList ∧ splitOnce text separator = none) ∨
      ∃ front back, text.toList = front ++ separator :: back ∧ separator ∉ front ∧
        splitOnce text separator = some (String.ofList front, String.ofList back) := by
  have htext := List.takeWhile_append_dropWhile (p := (· ≠ separator)) (l := text.toList)
  unfold splitOnce
  cases hdrop : text.toList.dropWhile (· ≠ separator) with
  | nil =>
    left
    refine ⟨fun hmem => ?_, rfl⟩
    have hall := List.dropWhile_eq_nil_iff.mp hdrop separator hmem
    exact absurd rfl (of_decide_eq_true hall)
  | cons c back =>
    right
    have hc : c = separator := by
      have hhead := List.head?_dropWhile_not (p := (· ≠ separator)) text.toList
      rw [hdrop] at hhead
      simpa using hhead
    subst hc
    rw [hdrop] at htext
    refine ⟨_, back, htext.symm, ?_, rfl⟩
    intro hmem
    have hne := List.mem_takeWhile_imp hmem
    exact absurd rfl (of_decide_eq_true hne)

section Parts

/-- The parts of a name from its pieces. -/
def partsOf (parts : List (List Char)) (part : List Char) : List (Piece Char) → List (List Char)
  | [] => parts ++ [part]
  | .quoted body :: rest => partsOf parts (part ++ body) rest
  | .plain c :: rest =>
    if c = '.' then partsOf (parts ++ [part]) [] rest else partsOf parts (part ++ [c]) rest

theorem splitParts_of_pieces (state : Option (List Char)) (text : List Char) :
    ∀ ps, pieces '[' ']' state text = some ps → ∀ parts part,
      splitParts state.isSome parts (part ++ state.getD []) text = partsOf parts part ps := by
  induction state, text using Bracketed.induct '[' ']' with
  | closed_nil =>
    rintro ps ⟨⟩ parts part
    rw [Option.getD_none, List.append_nil]
    rfl
  | open_nil body => nofun
  | double body rest ih =>
    intro ps hps parts part
    have hsplit := ih ps (pieces_double.symm.trans hps) parts part
    rw [Option.getD_some, ← List.append_assoc] at hsplit
    exact hsplit
  | close body rest hhead ih =>
    intro ps hps parts part
    rw [pieces_close hhead, Option.map_eq_some_iff] at hps
    obtain ⟨more, hmore, rfl⟩ := hps
    have hsplit := ih more hmore parts (part ++ body)
    rw [Option.getD_none, List.append_nil] at hsplit
    exact (splitParts_close hhead).trans hsplit
  | inside body c rest hc ih =>
    intro ps hps parts part
    have hsplit := ih ps ((pieces_inside hc).symm.trans hps) parts part
    rw [Option.getD_some, ← List.append_assoc] at hsplit
    exact (splitParts_inside hc).trans hsplit
  | start rest ih =>
    intro ps hps parts part
    exact ih ps (pieces_start.symm.trans hps) parts part
  | outside c rest hc ih =>
    intro ps hps parts part
    rw [pieces_outside hc, Option.map_eq_some_iff] at hps
    obtain ⟨more, hmore, rfl⟩ := hps
    rw [Option.getD_none, List.append_nil, partsOf]
    split_ifs with hdot
    · subst hdot
      have hsplit := ih more hmore (parts ++ [part]) []
      exact hsplit
    · have hsplit := ih more hmore parts (part ++ [c])
      rw [Option.getD_none, List.append_nil] at hsplit
      exact (splitParts_outside hc hdot).trans hsplit

/-- The characters of all the parts. -/
def totalLength (parts : List (List Char)) : ℕ := (parts.map List.length).sum

theorem length_double_le (mark : Char) (body : List Char) :
    body.length ≤ (Doubled.double mark body).length := by
  induction body with
  | nil => exact Nat.le_refl 0
  | cons c rest ih =>
    rw [Doubled.double_cons, List.length_append, List.length_cons]
    split_ifs <;> simp only [List.length_cons, List.length_nil] <;> omega

/-- The characters of a piece that the parts keep. -/
def kept : Piece Char → ℕ
  | .quoted body => body.length
  | .plain c => if c = '.' then 0 else 1

def keptLength (ps : List (Piece Char)) : ℕ := (ps.map kept).sum

@[simp] theorem keptLength_nil : keptLength [] = 0 := rfl

@[simp] theorem keptLength_cons (p : Piece Char) (ps : List (Piece Char)) :
    keptLength (p :: ps) = kept p + keptLength ps := List.sum_cons

theorem totalLength_partsOf (ps : List (Piece Char)) : ∀ parts part,
    totalLength (partsOf parts part ps) = totalLength parts + part.length + keptLength ps := by
  induction ps with
  | nil =>
    intro parts part
    simp [partsOf, totalLength]
  | cons p rest ih =>
    intro parts part
    rw [keptLength_cons]
    cases p with
    | quoted body =>
      rw [partsOf, ih, List.length_append, kept]
      omega
    | plain c =>
      rw [partsOf, kept]
      split_ifs
      · rw [ih, totalLength, List.map_append, List.sum_append, ← totalLength]
        simp
      · rw [ih, List.length_append, List.length_singleton]
        omega

theorem kept_quoted_add_two_le (body : List Char) :
    kept (.quoted body) + 2 ≤ ((Piece.quoted body).text '[' ']').length := by
  have hbody := length_double_le ']' body
  simp only [kept, Piece.text, List.length_cons, List.length_append, List.length_nil]
  omega

theorem kept_le (p : Piece Char) : kept p ≤ (p.text '[' ']').length := by
  cases p with
  | quoted body => exact Nat.le_trans (Nat.le_add_right _ 2) (kept_quoted_add_two_le body)
  | plain c =>
    have hwidth : ((Piece.plain c).text '[' ']').length = 1 := rfl
    rw [kept, hwidth]
    split_ifs <;> decide

theorem length_render_cons (p : Piece Char) (ps : List (Piece Char)) :
    (render '[' ']' (p :: ps)).length =
      (p.text '[' ']').length + (render '[' ']' ps).length := by
  rw [render, List.flatMap_cons, List.length_append]
  rfl

theorem keptLength_le (ps : List (Piece Char)) : keptLength ps ≤ (render '[' ']' ps).length := by
  induction ps with
  | nil => exact Nat.le_refl 0
  | cons p rest ih =>
    rw [length_render_cons, keptLength_cons]
    exact Nat.add_le_add (kept_le p) ih

/-- A segment loses its brackets. -/
theorem keptLength_of_quoted {ps : List (Piece Char)} {body : List Char}
    (hmem : .quoted body ∈ ps) : keptLength ps + 2 ≤ (render '[' ']' ps).length := by
  induction ps with
  | nil => cases hmem
  | cons p rest ih =>
    have hfirst := kept_le p
    have hmore := keptLength_le rest
    rw [length_render_cons, keptLength_cons]
    rcases List.mem_cons.mp hmem with rfl | hrest
    · have hbody := kept_quoted_add_two_le body
      omega
    · have hless := ih hrest
      omega

/-- A text with a bracket has a segment. -/
theorem exists_quoted {ps : List (Piece Char)} (hopening : .plain '[' ∉ ps)
    (hmem : '[' ∈ render '[' ']' ps) : ∃ body, .quoted body ∈ ps := by
  obtain ⟨p, hp, hchar⟩ := List.mem_flatMap.mp hmem
  cases p with
  | quoted body => exact ⟨body, hp⟩
  | plain c =>
    obtain rfl : '[' = c := List.mem_singleton.mp hchar
    exact absurd hp hopening

end Parts

section Dots

variable {text front back : List Char} {parts : List (List Char)} {part : List Char}

theorem splitParts_of_no_dot (hbracket : '[' ∉ text) (hdot : '.' ∉ text) :
    splitParts false parts part text = parts ++ [part ++ text] := by
  induction text generalizing part with
  | nil => simp [splitParts]
  | cons c rest ih =>
    rw [List.mem_cons, not_or] at hbracket hdot
    rw [splitParts_outside (Ne.symm hbracket.1) (Ne.symm hdot.1), ih hbracket.2 hdot.2,
      List.append_assoc, List.singleton_append]

theorem splitParts_at_dot (hbracket : '[' ∉ front) (hdot : '.' ∉ front) :
    splitParts false parts part (front ++ '.' :: back) =
      splitParts false (parts ++ [part ++ front]) [] back := by
  induction front generalizing part with
  | nil =>
    rw [List.nil_append, List.append_nil]
    rfl
  | cons c rest ih =>
    rw [List.mem_cons, not_or] at hbracket hdot
    rw [List.cons_append, splitParts_outside (Ne.symm hbracket.1) (Ne.symm hdot.1),
      ih hbracket.2 hdot.2, List.append_assoc, List.singleton_append]

/-- There is a part behind every dot. -/
theorem splitParts_length (text : List Char) : ∀ parts part, '[' ∉ text →
    (splitParts false parts part text).length = parts.length + 1 + text.count '.' := by
  induction text with
  | nil =>
    intro parts part _
    simp [splitParts]
  | cons c rest ih =>
    intro parts part hbracket
    rw [List.mem_cons, not_or] at hbracket
    by_cases hdot : c = '.'
    · subst hdot
      rw [splitParts, ih _ _ hbracket.2, List.length_append, List.length_singleton,
        List.count_cons_self]
      omega
    · rw [splitParts_outside (Ne.symm hbracket.1) hdot, ih _ _ hbracket.2,
        List.count_cons_of_ne hdot]

end Dots

section Tvp

variable {dbType : String}

/-- The parameter has the names that the statement means: the last part of the name,
and the part in front of it or nothing. -/
def NamesType (dbType : String) (tvp : TypeInfoTvp) : Prop :=
  tvp.schemaName = partFromEnd (splitMultipartIdentifier dbType) 1 ∧
    tvp.dbTypeName = partFromEnd (splitMultipartIdentifier dbType) 0

/-- Without brackets the first dot is the only one. -/
theorem namesType_of_no_bracket (hbracket : '[' ∉ dbType.toList)
    (hparts : (splitMultipartIdentifier dbType).length ≤ 2) (rows : List (List ColumnData)) :
    NamesType dbType (TypeInfoTvp.new dbType rows) := by
  unfold NamesType TypeInfoTvp.new
  rcases splitOnce_cases dbType '.' with ⟨hdot, honce⟩ | ⟨front, back, htext, hfront, honce⟩
  · have hsplit : splitMultipartIdentifier dbType = [dbType] := by
      rw [splitMultipartIdentifier, splitParts_of_no_dot hbracket hdot]
      simp
    rw [hsplit, honce]
    exact ⟨rfl, rfl⟩
  · rw [htext, List.mem_append, not_or, List.mem_cons, not_or] at hbracket
    obtain ⟨hbefore, -, hbehind⟩ := hbracket
    have hcount : '.' ∉ back := by
      unfold splitMultipartIdentifier at hparts
      rw [htext, splitParts_at_dot hbefore hfront, List.length_map,
        splitParts_length _ _ _ hbehind] at hparts
      rw [← List.count_eq_zero]
      simp only [List.length_append, List.length_nil, List.length_singleton] at hparts
      omega
    have hsplit : splitMultipartIdentifier dbType = [String.ofList front, String.ofList back] := by
      rw [splitMultipartIdentifier, htext, splitParts_at_dot hbefore hfront,
        splitParts_of_no_dot hbehind hcount]
      rfl
    rw [hsplit, honce]
    exact ⟨rfl, rfl⟩

/-- What the plain split keeps of a name: all of it but a dot. -/
theorem length_new (rows : List (List ColumnData)) :
    dbType.toList.length ≤ (TypeInfoTvp.new dbType rows).schemaName.toList.length +
      (TypeInfoTvp.new dbType rows).dbTypeName.toList.length + 1 := by
  unfold TypeInfoTvp.new
  rcases splitOnce_cases dbType '.' with ⟨-, honce⟩ | ⟨front, back, htext, -, honce⟩
  · rw [honce]
    simp
  · rw [honce, htext]
    simp only [String.toList_ofList, List.length_append, List.length_cons]
    omega

/-- The last two of at most two parts are all of them. -/
theorem length_partFromEnd {parts : List (List Char)} (hparts : parts.length ≤ 2) :
    (partFromEnd (parts.map String.ofList) 1).toList.length +
      (partFromEnd (parts.map String.ofList) 0).toList.length = totalLength parts := by
  match parts, hparts with
  | [], _ => rfl
  | [last], _ => simp [partFromEnd, totalLength]
  | [first, last], _ => simp [partFromEnd, totalLength]

/-- The names of an accepted type of one or two parts are right just when there is
no bracket in it. -/
theorem names_type_iff [UnicodeTables] (build : Build) (rows : List (List ColumnData))
    (hvalid : validateDbTypeIdentifier build dbType = .ok ())
    (hparts : (splitMultipartIdentifier dbType).length ≤ 2) :
    NamesType dbType (TypeInfoTvp.new dbType rows) ↔ '[' ∉ dbType.toList := by
  refine ⟨fun hnames hbracket => ?_, fun hbracket => namesType_of_no_bracket hbracket hparts rows⟩
  unfold validateDbTypeIdentifier validateSqlIdentifier at hvalid
  split_ifs at hvalid
  · exact absurd hvalid reject_ne_ok
  · obtain ⟨ps, hps, -⟩ := accepts_of_validate none dbType.toList 0 hvalid
    have hrender : render '[' ']' ps = dbType.toList := render_of_pieces none _ ps hps
    have hsplit : splitParts false [] [] dbType.toList = partsOf [] [] ps :=
      splitParts_of_pieces none dbType.toList ps hps [] []
    rw [← hrender] at hbracket
    obtain ⟨body, hbody⟩ := exists_quoted (opening_not_mem_pieces _ _ _ hps) hbracket
    have hless := keptLength_of_quoted hbody
    have htotal := totalLength_partsOf ps [] []
    have hkept := @length_new dbType rows
    have hlength : (splitParts false [] [] dbType.toList).length ≤ 2 := by
      rw [splitMultipartIdentifier, List.length_map] at hparts
      exact hparts
    rw [hnames.1, hnames.2, splitMultipartIdentifier, length_partFromEnd hlength, hsplit, htotal,
      ← hrender] at hkept
    have hzero : totalLength [] = 0 := rfl
    rw [hzero, List.length_nil] at hkept
    omega

end Tvp

/-- A schema and a name without brackets. -/
theorem names_type_iff_plain :
    NamesType "dbo.MyType" (TypeInfoTvp.new "dbo.MyType" []) ↔ '[' ∉ "dbo.MyType".toList :=
  @names_type_iff "dbo.MyType" .ascii .wraps [] (by rfl) (by decide)

/-- The brackets are sent as a part of the name, and a dot between them cuts it in two. -/
theorem bracketed_type_renamed :
    (∀ build, @validateDbTypeIdentifier .ascii build "[my.type]" = .ok ()) ∧
      splitMultipartIdentifier "[my.type]" = ["my.type"] ∧
      (TypeInfoTvp.new "[my.type]" []).schemaName = "[my" ∧
      (TypeInfoTvp.new "[my.type]" []).dbTypeName = "type]" ∧
      (∀ build, @validateDbTypeIdentifier .ascii build "[my type]" = .ok ()) ∧
      ¬ NamesType "[my type]" (TypeInfoTvp.new "[my type]" []) := by
  refine ⟨fun _ => rfl, rfl, rfl, rfl, fun _ => rfl, fun hnames => ?_⟩
  exact absurd hnames.2 (by decide)

end Tiberius
