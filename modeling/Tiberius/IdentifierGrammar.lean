import Mathlib.Data.List.Chain
import Tiberius.SqlIdentifier
import Tiberius.Text.Bracketed

/-!
What a checked identifier can be in the text of a statement: one name of parts with
dots between them, and behind it at most one list of arguments. The server finds the
end of a bracketed segment by the same rule as the check, and every bracket and every
closing parenthesis is the end of a token to it.
-/

namespace Tiberius

open Machine Bracketed

/-- The pieces of an identifier in a statement. -/
def namePieces (ident : String) : Option (List (Piece Char)) := pieces '[' ']' none ident.toList

/-- The depth of parentheses behind a piece; none is a parenthesis too many. -/
def depthStep (depth : ℕ) : Piece Char → Option ℕ
  | .quoted _ => some depth
  | .plain c =>
    if c = '(' then some (depth + 1)
    else if c = ')' then if depth = 0 then none else some (depth - 1)
    else some depth

def depthAfter (depth : ℕ) (ps : List (Piece Char)) : Option ℕ := ps.foldlM depthStep depth

/-- The parentheses never nest as deep as 32 bits count. -/
def IsShallow (depth : ℕ) (ps : List (Piece Char)) : Prop :=
  ∀ before after reached, ps = before ++ after → depthAfter depth before = some reached →
    reached < 2 ^ 32

/-- One part of a name: a bracketed segment, or characters that delimit nothing. -/
def IsPart (ps : List (Piece Char)) : Prop :=
  (∃ body, ps = [.quoted body]) ∨
    ∀ p ∈ ps, ∃ c, p = .plain c ∧ c ∉ ['.', '[', ']', '(', ')', ' ', ',']

inductive IsDottedName : List (Piece Char) → Prop
  | last {part : List (Piece Char)} (hpart : IsPart part) : IsDottedName part
  | dot {part rest : List (Piece Char)} (hpart : IsPart part) (hrest : IsDottedName rest) :
    IsDottedName (part ++ .plain '.' :: rest)

def IsArguments (ps : List (Piece Char)) : Prop :=
  ∃ inner, ps = .plain '(' :: (inner ++ [.plain ')']) ∧ depthAfter 0 inner = some 0

def OpensBehindDot (before p : Piece Char) : Prop := p.IsQuoted → before = .plain '.'

def ClosesBeforeDot (p after : Piece Char) : Prop := p.IsQuoted → after = .plain '.'

/-- An identifier to which no second token is attached. -/
structure IsSingleName (ident : String) (ps : List (Piece Char)) : Prop where
  scanned : namePieces ident = some ps
  shape : ∃ name arguments, ps = name ++ arguments ∧ IsDottedName name ∧
    (arguments = [] ∨ IsArguments arguments)
  opens : ps.IsChain OpensBehindDot
  closes : ps.IsChain ClosesBeforeDot
  unbalanced : .plain ']' ∉ ps

/-- What the check accepts, on the pieces of the identifier. -/
def Accepts (build : Build) : ℕ → List (Piece Char) → Prop
  | depth, [] => depth = 0
  | depth, .quoted _ :: rest =>
    (∀ p, rest.head? = some p → p = .plain '.') ∧ Accepts build depth rest
  | depth, .plain c :: rest =>
    if c = '(' then ∃ more, build.plainUnsigned 32 (depth + 1) = some more ∧ Accepts build more rest
    else if c = ')' then ∃ less, depth = less + 1 ∧ (less = 0 → rest = []) ∧ Accepts build less rest
    else c ≠ ']' ∧ (depth = 0 → c ≠ ' ' ∧ c ≠ ',') ∧ Accepts build depth rest

section Depth

variable {depth more : ℕ} {p : Piece Char} {ps rest : List (Piece Char)}

@[simp] theorem depthAfter_nil : depthAfter depth [] = some depth := rfl

theorem depthAfter_cons : depthAfter depth (p :: rest) =
    (depthStep depth p).bind fun more => depthAfter more rest := List.foldlM_cons

theorem depthAfter_append : depthAfter depth (ps ++ rest) =
    (depthAfter depth ps).bind fun more => depthAfter more rest := List.foldlM_append

theorem IsShallow.lt (h : IsShallow depth ps) : depth < 2 ^ 32 := h [] ps depth rfl rfl

theorem IsShallow.tail (h : IsShallow depth (p :: rest)) (hstep : depthStep depth p = some more) :
    IsShallow more rest := by
  intro before after reached heq hreached
  apply h (p :: before) after reached
  · rw [heq, List.cons_append]
  · rw [depthAfter_cons, hstep]
    exact hreached

theorem IsShallow.cons (hdepth : depth < 2 ^ 32) (hstep : depthStep depth p = some more)
    (h : IsShallow more rest) : IsShallow depth (p :: rest) := by
  intro before after reached heq hreached
  cases before with
  | nil =>
    cases hreached
    exact hdepth
  | cons q before =>
    obtain ⟨rfl, hrest⟩ := List.cons.inj heq
    rw [depthAfter_cons, hstep] at hreached
    exact h before after reached hrest hreached

end Depth

section Accepted

variable {build : Build}

theorem depthStep_open (depth : ℕ) : depthStep depth (.plain '(') = some (depth + 1) := rfl

theorem depthStep_close (depth : ℕ) : depthStep (depth + 1) (.plain ')') = some depth := rfl

theorem depthStep_other {c : Char} (hopen : c ≠ '(') (hclose : c ≠ ')') (depth : ℕ) :
    depthStep depth (.plain c) = some depth := by
  rw [depthStep, if_neg hopen, if_neg hclose]

/-- The cases of an accepted piece outside of brackets. -/
theorem Accepts.plain_cases {depth : ℕ} {c : Char} {rest : List (Piece Char)}
    (h : Accepts build depth (.plain c :: rest)) :
    (c = '(' ∧ ∃ more, build.plainUnsigned 32 (depth + 1) = some more ∧ Accepts build more rest) ∨
      (c = ')' ∧ ∃ less, depth = less + 1 ∧ (less = 0 → rest = []) ∧ Accepts build less rest) ∨
        (c ≠ '(' ∧ c ≠ ')' ∧ c ≠ ']' ∧ (depth = 0 → c ≠ ' ' ∧ c ≠ ',') ∧
          Accepts build depth rest) := by
  unfold Accepts at h
  split_ifs at h with hopen hclose
  · exact .inl ⟨hopen, h⟩
  · exact .inr (.inl ⟨hclose, h⟩)
  · exact .inr (.inr ⟨hopen, hclose, h⟩)

/-- A depth that wraps is never made up for, so balanced parentheses have not wrapped. -/
theorem shallow_of_balanced {ps : List (Piece Char)} :
    ∀ depth wraps, depth < 2 ^ 32 → Accepts build depth ps →
      depthAfter (depth + wraps * 2 ^ 32) ps = some 0 → wraps = 0 ∧ IsShallow depth ps := by
  induction ps with
  | nil =>
    intro depth wraps hdepth haccepts hafter
    obtain rfl : depth = 0 := haccepts
    have hzero : 0 + wraps * 2 ^ 32 = 0 := Option.some.inj hafter
    refine ⟨by omega, ?_⟩
    intro before after reached heq hreached
    obtain ⟨rfl, rfl⟩ := List.append_eq_nil_iff.mp heq.symm
    cases hreached
    exact hdepth
  | cons p rest ih =>
    intro depth wraps hdepth haccepts hafter
    rw [depthAfter_cons] at hafter
    cases p with
    | quoted body =>
      obtain ⟨hwraps, hshallow⟩ := ih depth wraps hdepth haccepts.2 hafter
      exact ⟨hwraps, hshallow.cons hdepth rfl⟩
    | plain c =>
      rcases haccepts.plain_cases with ⟨rfl, more, hmore, hrest⟩ | ⟨rfl, less, rfl, -, hrest⟩ |
        ⟨hopen, hclose, -, -, hrest⟩
      · rw [depthStep_open, Option.bind_some] at hafter
        unfold Build.plainUnsigned at hmore
        split_ifs at hmore with hlt
        · cases hmore
          rw [show depth + wraps * 2 ^ 32 + 1 = depth + 1 + wraps * 2 ^ 32 by omega] at hafter
          obtain ⟨hwraps, hshallow⟩ := ih _ wraps hlt hrest hafter
          exact ⟨hwraps, hshallow.cons hdepth rfl⟩
        · cases build with
          | panics => cases hmore
          | wraps =>
            obtain rfl : 0 = more := by
              have hmod := Option.some.inj hmore
              omega
            rw [show depth + wraps * 2 ^ 32 + 1 = 0 + (wraps + 1) * 2 ^ 32 by omega] at hafter
            obtain ⟨hwraps, -⟩ := ih 0 (wraps + 1) (by decide) hrest hafter
            omega
      · rw [show less + 1 + wraps * 2 ^ 32 = less + wraps * 2 ^ 32 + 1 by omega, depthStep_close,
          Option.bind_some] at hafter
        obtain ⟨hwraps, hshallow⟩ := ih less wraps (by omega) hrest hafter
        exact ⟨hwraps, hshallow.cons hdepth (depthStep_close less)⟩
      · rw [depthStep_other hopen hclose, Option.bind_some] at hafter
        obtain ⟨hwraps, hshallow⟩ := ih depth wraps hdepth hrest hafter
        exact ⟨hwraps, hshallow.cons hdepth (depthStep_other hopen hclose depth)⟩

theorem plainUnsigned_of_lt {exact more : ℕ} (hlt : exact < 2 ^ 32)
    (hmore : build.plainUnsigned 32 exact = some more) : more = exact := by
  unfold Build.plainUnsigned at hmore
  rw [if_pos hlt] at hmore
  exact (Option.some.inj hmore).symm

/-- Inside of parentheses the identifier ends with the one that closes the first. -/
theorem arguments_of_accepts {ps : List (Piece Char)} :
    ∀ depth, Accepts build (depth + 1) ps → IsShallow (depth + 1) ps →
      ∃ inner, ps = inner ++ [.plain ')'] ∧ depthAfter depth inner = some 0 := by
  induction ps with
  | nil =>
    intro depth haccepts _
    exact absurd haccepts (Nat.succ_ne_zero depth)
  | cons p rest ih =>
    intro depth haccepts hshallow
    -- Every piece but the last is the first one of the arguments.
    have hcons : ∀ more, depthStep depth p = some more → ∀ inner, rest = inner ++ [.plain ')'] →
        depthAfter more inner = some 0 →
        ∃ inner, p :: rest = inner ++ [.plain ')'] ∧ depthAfter depth inner = some 0 := by
      intro more hstep inner hrest hinner
      refine ⟨p :: inner, by rw [hrest, List.cons_append], ?_⟩
      rw [depthAfter_cons, hstep]
      exact hinner
    cases p with
    | quoted body =>
      obtain ⟨inner, hrest, hinner⟩ := ih depth haccepts.2 (hshallow.tail rfl)
      exact hcons depth rfl inner hrest hinner
    | plain c =>
      rcases haccepts.plain_cases with ⟨rfl, more, hmore, hrest⟩ | ⟨rfl, less, hless, hend, hrest⟩ |
        ⟨hopen, hclose, -, -, hrest⟩
      · have htail := hshallow.tail (depthStep_open _)
        obtain rfl := plainUnsigned_of_lt htail.lt hmore
        obtain ⟨inner, hinner⟩ := ih (depth + 1) hrest htail
        exact hcons (depth + 1) (depthStep_open _) inner hinner.1 hinner.2
      · obtain rfl : depth = less := Nat.succ.inj hless
        cases depth with
        | zero =>
          obtain rfl := hend rfl
          exact ⟨[], rfl, rfl⟩
        | succ depth =>
          obtain ⟨inner, hinner⟩ := ih depth hrest (hshallow.tail (depthStep_close _))
          exact hcons depth (depthStep_close _) inner hinner.1 hinner.2
      · have hstep := depthStep_other hopen hclose
        obtain ⟨inner, hinner⟩ := ih depth hrest (hshallow.tail (hstep _))
        exact hcons depth (hstep _) inner hinner.1 hinner.2

/-- A piece that can be part of a name, or the dot between two parts. -/
def IsNamePiece (p : Piece Char) : Prop :=
  ∀ c, p = .plain c → c ∉ [']', '(', ')', ' ', ',']

/-- Up to the first parenthesis there are only pieces of the name. -/
theorem name_of_accepts {ps : List (Piece Char)} (haccepts : Accepts build 0 ps)
    (hshallow : IsShallow 0 ps) : ∃ name arguments, ps = name ++ arguments ∧
      (∀ p ∈ name, IsNamePiece p) ∧ (arguments = [] ∨ IsArguments arguments) := by
  induction ps with
  | nil => exact ⟨[], [], rfl, nofun, .inl rfl⟩
  | cons p rest ih =>
    have hcons : IsNamePiece p → Accepts build 0 rest → IsShallow 0 rest →
        ∃ name arguments, p :: rest = name ++ arguments ∧ (∀ q ∈ name, IsNamePiece q) ∧
          (arguments = [] ∨ IsArguments arguments) := by
      intro hp hrest htail
      obtain ⟨name, arguments, rfl, hname, harguments⟩ := ih hrest htail
      exact ⟨p :: name, arguments, rfl, List.forall_mem_cons.mpr ⟨hp, hname⟩, harguments⟩
    cases p with
    | quoted body => exact hcons nofun haccepts.2 (hshallow.tail rfl)
    | plain c =>
      rcases haccepts.plain_cases with ⟨rfl, more, hmore, hrest⟩ | ⟨-, less, hless, -⟩ |
        ⟨hopen, hclose, hclosing, hspace, hrest⟩
      · have htail := hshallow.tail (depthStep_open _)
        obtain rfl := plainUnsigned_of_lt htail.lt hmore
        obtain ⟨inner, rfl, hinner⟩ := arguments_of_accepts 0 hrest htail
        exact ⟨[], _, rfl, nofun, .inr ⟨inner, rfl, hinner⟩⟩
      · cases hless
      · refine hcons ?_ hrest (hshallow.tail (depthStep_other hopen hclose 0))
        rintro _ ⟨⟩
        simp [hopen, hclose, hclosing, hspace rfl]

theorem closes_of_accepts {ps : List (Piece Char)} :
    ∀ depth, Accepts build depth ps → ps.IsChain ClosesBeforeDot := by
  induction ps with
  | nil => exact fun _ _ => .nil
  | cons p rest ih =>
    intro depth haccepts
    rw [List.isChain_cons]
    cases p with
    | quoted body => exact ⟨fun q hq _ => haccepts.1 q hq, ih depth haccepts.2⟩
    | plain c =>
      refine ⟨fun _ _ h => absurd h id, ?_⟩
      rcases haccepts.plain_cases with ⟨-, more, -, hrest⟩ | ⟨-, less, -, -, hrest⟩ |
        ⟨-, -, -, -, hrest⟩
      · exact ih more hrest
      · exact ih less hrest
      · exact ih depth hrest

theorem unbalanced_of_accepts {ps : List (Piece Char)} :
    ∀ depth, Accepts build depth ps → .plain ']' ∉ ps := by
  induction ps with
  | nil => exact fun _ _ => List.not_mem_nil
  | cons p rest ih =>
    intro depth haccepts
    rw [List.mem_cons, not_or]
    cases p with
    | quoted body => exact ⟨nofun, ih depth haccepts.2⟩
    | plain c =>
      rcases haccepts.plain_cases with ⟨rfl, more, -, hrest⟩ | ⟨rfl, less, -, -, hrest⟩ |
        ⟨-, -, hclosing, -, hrest⟩
      · exact ⟨by decide, ih more hrest⟩
      · exact ⟨by decide, ih less hrest⟩
      · exact ⟨fun h => hclosing (Piece.plain.inj h).symm, ih depth hrest⟩

end Accepted

section Names

variable {ps rest : List (Piece Char)}

/-- A part that is not a segment grows by a character in front of it. -/
theorem IsPart.cons {c : Char} (hpart : IsPart ps)
    (hc : c ∉ ['.', '[', ']', '(', ')', ' ', ',']) (hhead : ∀ p, ps.head? = some p → ¬ p.IsQuoted) :
    IsPart (.plain c :: ps) := by
  rcases hpart with ⟨body, rfl⟩ | hplain
  · exact absurd trivial (hhead _ rfl)
  · refine .inr fun p hp => ?_
    rcases List.mem_cons.mp hp with rfl | hp
    · exact ⟨c, rfl, hc⟩
    · exact hplain p hp

theorem IsDottedName.cons {c : Char} (hname : IsDottedName ps)
    (hc : c ∉ ['.', '[', ']', '(', ')', ' ', ',']) (hhead : ∀ p, ps.head? = some p → ¬ p.IsQuoted) :
    IsDottedName (.plain c :: ps) := by
  cases hname with
  | last hpart => exact .last (hpart.cons hc hhead)
  | @dot part rest hpart hrest =>
    refine @IsDottedName.dot (.plain c :: part) rest (hpart.cons hc fun p hp => ?_) hrest
    apply hhead
    rw [List.head?_append, hp]
    rfl

theorem IsPart.not_dot (hpart : IsPart ps) : .plain '.' ∉ ps := by
  rcases hpart with ⟨body, rfl⟩ | hplain
  · simp
  · intro hdot
    obtain ⟨c, hc, hname⟩ := hplain _ hdot
    cases hc
    exact hname List.mem_cons_self

/-- What follows the dot behind an empty part is a name again. -/
theorem IsDottedName.of_dot (hname : IsDottedName (.plain '.' :: ps)) : IsDottedName ps := by
  generalize hall : .plain '.' :: ps = all at hname
  cases hname with
  | last hpart => exact absurd (hall ▸ List.mem_cons_self) hpart.not_dot
  | @dot part rest hpart hrest =>
    cases part with
    | nil =>
      cases hall
      exact hrest
    | cons p part =>
      obtain ⟨rfl, -⟩ := List.cons.inj hall
      exact absurd List.mem_cons_self hpart.not_dot

/-- Segments that stand between dots are parts of their own. -/
theorem dottedName_of_chains (hname : ∀ p ∈ ps, IsNamePiece p) (hopening : .plain '[' ∉ ps)
    (hopens : ps.IsChain OpensBehindDot) (hcloses : ps.IsChain ClosesBeforeDot) :
    IsDottedName ps := by
  induction ps with
  | nil => exact .last (.inr nofun)
  | cons p rest ih =>
    rw [List.isChain_cons] at hopens hcloses
    rw [List.mem_cons, not_or] at hopening
    rw [List.forall_mem_cons] at hname
    have hrest := ih hname.2 hopening.2 hopens.2 hcloses.2
    cases p with
    | quoted body =>
      cases rest with
      | nil => exact .last (.inl ⟨body, rfl⟩)
      | cons q more =>
        obtain rfl : q = .plain '.' := hcloses.1 q rfl trivial
        exact @IsDottedName.dot [.quoted body] more (.inl ⟨body, rfl⟩) hrest.of_dot
    | plain c =>
      by_cases hdot : c = '.'
      · subst hdot
        exact @IsDottedName.dot [] rest (.inr nofun) hrest
      · refine hrest.cons ?_ fun q hq hquoted => ?_
        · have hc := hname.1 c rfl
          have hopening' : c ≠ '[' := fun h => hopening.1 (congrArg Piece.plain h.symm)
          simp only [List.mem_cons, List.not_mem_nil, or_false, not_or] at hc ⊢
          exact ⟨hdot, hopening', hc⟩
        · exact hdot (Piece.plain.inj (hopens.1 q hq hquoted))

/-- The depth does not change over a name. -/
theorem depthAfter_of_part (hpart : IsPart ps) (depth : ℕ) : depthAfter depth ps = some depth := by
  rcases hpart with ⟨body, rfl⟩ | hplain
  · rfl
  · induction ps with
    | nil => rfl
    | cons p rest ih =>
      rw [List.forall_mem_cons] at hplain
      obtain ⟨⟨c, rfl, hc⟩, hrest⟩ := hplain
      simp only [List.mem_cons, List.not_mem_nil, or_false, not_or] at hc
      rw [depthAfter_cons, depthStep_other hc.2.2.2.1 hc.2.2.2.2.1]
      exact ih hrest

theorem depthAfter_of_dottedName (hname : IsDottedName ps) (depth : ℕ) :
    depthAfter depth ps = some depth := by
  induction hname with
  | last hpart => exact depthAfter_of_part hpart depth
  | dot hpart _ ih =>
    rw [depthAfter_append, depthAfter_of_part hpart, Option.bind_some, depthAfter_cons]
    exact ih

/-- Balanced pieces are balanced at any depth. -/
theorem depthAfter_succ {depth reached : ℕ} (h : depthAfter depth ps = some reached) :
    depthAfter (depth + 1) ps = some (reached + 1) := by
  induction ps generalizing depth with
  | nil =>
    cases h
    rfl
  | cons p rest ih =>
    rw [depthAfter_cons, Option.bind_eq_some_iff] at h
    obtain ⟨more, hstep, hrest⟩ := h
    have hnext : depthStep (depth + 1) p = some (more + 1) := by
      cases p with
      | quoted body =>
        cases hstep
        rfl
      | plain c =>
        by_cases hopen : c = '('
        · subst hopen
          cases hstep
          rfl
        · by_cases hclose : c = ')'
          · subst hclose
            cases depth <;> cases hstep
            rfl
          · rw [depthStep_other hopen hclose] at hstep ⊢
            cases hstep
            rfl
    rw [depthAfter_cons, hnext]
    exact ih hrest

theorem depthAfter_of_arguments (h : IsArguments ps) : depthAfter 0 ps = some 0 := by
  obtain ⟨inner, rfl, hinner⟩ := h
  rw [depthAfter_cons, depthStep_open, Option.bind_some, depthAfter_append,
    depthAfter_succ hinner]
  rfl

end Names

/-- A piece behind a segment can only be a dot. -/
theorem head_eq_dot {rest : List Char} {ps : List (Piece Char)}
    (hnext : rest.head? = none ∨ rest.head? = some '.')
    (hps : pieces '[' ']' none rest = some ps) : ∀ p, ps.head? = some p → p = .plain '.' := by
  intro p hp
  cases rest with
  | nil =>
    cases hps
    cases hp
  | cons c rest =>
    obtain rfl : c = '.' := by simpa using hnext
    rw [head_of_pieces (by decide) hps] at hp
    exact (Option.some.inj hp).symm

section Check

variable [UnicodeTables] {build : Build} {what : String} {depth : ℕ} {c : Char} {rest : List Char}

omit [UnicodeTables] in
theorem reject_ne_ok {reason : String} :
    (rejectIdentifier what reason : Except Fault Unit) ≠ .ok () :=
  fun h => nomatch h

/-- A character outside of brackets that is let through, and the depth behind it. -/
theorem validateChars_outside (hopening : c ≠ '[')
    (hvalid : validateChars build what false depth (c :: rest) = .ok ()) :
    ∃ more, validateChars build what false more rest = .ok () ∧
      ∀ ps, (ps = [] ↔ rest = []) → Accepts build more ps →
        Accepts build depth (.plain c :: ps) := by
  rw [validateChars, if_neg hopening] at hvalid
  simp only [Accepts]
  split_ifs at hvalid with hclosing hopen hclose hzero hlast hspace hallowed
  · exact absurd hvalid reject_ne_ok
  · cases hmore : build.plainUnsigned 32 (depth + 1) with
    | none =>
      rw [hmore] at hvalid
      cases hvalid
    | some more =>
      rw [hmore] at hvalid
      refine ⟨more, hvalid, fun ps _ haccepts => ?_⟩
      rw [if_pos hopen]
      exact ⟨more, rfl, haccepts⟩
  · exact absurd hvalid reject_ne_ok
  · exact absurd hvalid reject_ne_ok
  · refine ⟨depth - 1, hvalid, fun ps hps haccepts => ?_⟩
    rw [if_neg hopen, if_pos hclose]
    refine ⟨depth - 1, by omega, fun hless => ?_, haccepts⟩
    rw [hps]
    by_contra hrest
    exact hlast ⟨hless, hrest⟩
  · exact absurd hvalid reject_ne_ok
  · refine ⟨depth, hvalid, fun ps _ haccepts => ?_⟩
    rw [if_neg hopen, if_neg hclose]
    refine ⟨hclosing, fun hdepth => ?_, haccepts⟩
    rw [← not_or]
    exact fun h => hspace ⟨h, hdepth⟩
  · exact absurd hvalid reject_ne_ok

/-- The check and the server take an identifier apart in the same way. -/
theorem accepts_of_validate (state : Option (List Char)) (text : List Char) :
    ∀ depth, validateChars build what state.isSome depth text = .ok () →
      ∃ ps, pieces '[' ']' state text = some ps ∧ Accepts build depth ps ∧
        (state = none → (ps = [] ↔ text = [])) := by
  induction state, text using Bracketed.induct '[' ']' with
  | closed_nil =>
    intro depth hvalid
    refine ⟨[], rfl, ?_, fun _ => iff_of_true rfl rfl⟩
    by_contra hdepth
    exact reject_ne_ok ((if_pos hdepth).symm.trans hvalid)
  | open_nil body =>
    intro depth hvalid
    exact absurd hvalid reject_ne_ok
  | double body rest ih =>
    intro depth hvalid
    obtain ⟨ps, hps, haccepts, -⟩ := ih depth hvalid
    exact ⟨ps, pieces_double.trans hps, haccepts, nofun⟩
  | close body rest hhead ih =>
    intro depth hvalid
    rw [Option.isSome_some, validateChars_close hhead] at hvalid
    split_ifs at hvalid with hnext
    · obtain ⟨ps, hps, haccepts, -⟩ := ih depth hvalid
      refine ⟨.quoted body :: ps, ?_, ⟨head_eq_dot hnext hps, haccepts⟩, nofun⟩
      rw [pieces_close hhead, hps]
      rfl
    · exact absurd hvalid reject_ne_ok
  | inside body c rest hc ih =>
    intro depth hvalid
    rw [Option.isSome_some, validateChars_inside hc] at hvalid
    obtain ⟨ps, hps, haccepts, -⟩ := ih depth hvalid
    exact ⟨ps, (pieces_inside hc).trans hps, haccepts, nofun⟩
  | start rest ih =>
    intro depth hvalid
    obtain ⟨ps, hps, haccepts, -⟩ := ih depth hvalid
    refine ⟨ps, pieces_start.trans hps, haccepts, fun _ => iff_of_false ?_ (List.cons_ne_nil _ _)⟩
    rintro rfl
    cases render_of_pieces _ _ _ hps
  | outside c rest hc ih =>
    intro depth hvalid
    obtain ⟨more, hmore, haccepts⟩ := validateChars_outside hc hvalid
    obtain ⟨ps, hps, hrest, hnil⟩ := ih more hmore
    refine ⟨.plain c :: ps, ?_, haccepts ps (hnil rfl) hrest, fun _ => by simp⟩
    rw [pieces_outside hc, hps]
    rfl

/-- Every segment begins a part of the name, and the parentheses do not nest as deep as
32 bits count. -/
def IsPlain (ps : List (Piece Char)) : Prop := ps.IsChain OpensBehindDot ∧ IsShallow 0 ps

/-- An accepted identifier is a single name just when its segments begin its parts. The
rest of what makes a single name is what the check is for. -/
theorem single_name_iff {ident : String} (build : Build) (what : String)
    (hvalid : validateSqlIdentifier build what ident = .ok ()) :
    ∃ ps, namePieces ident = some ps ∧ (IsSingleName ident ps ↔ IsPlain ps) := by
  unfold validateSqlIdentifier at hvalid
  split_ifs at hvalid
  · exact absurd hvalid reject_ne_ok
  · obtain ⟨ps, hps, haccepts, -⟩ := accepts_of_validate none ident.toList 0 hvalid
    refine ⟨ps, hps, fun hname => ⟨hname.opens, ?_⟩, fun ⟨hopens, hshallow⟩ => ?_⟩
    · obtain ⟨name, arguments, hall, hdotted, harguments⟩ := hname.shape
      have hbalanced : depthAfter (0 + 0 * 2 ^ 32) ps = some 0 := by
        rw [hall, depthAfter_append, depthAfter_of_dottedName hdotted, Option.bind_some]
        rcases harguments with rfl | harguments
        · rfl
        · exact depthAfter_of_arguments harguments
      exact (shallow_of_balanced 0 0 (by decide) haccepts hbalanced).2
    · obtain ⟨name, arguments, rfl, hname, harguments⟩ := name_of_accepts haccepts hshallow
      have hcloses := closes_of_accepts 0 haccepts
      have hopening := opening_not_mem_pieces _ _ _ hps
      refine ⟨hps, ⟨name, arguments, rfl, ?_, harguments⟩, hopens, hcloses,
        unbalanced_of_accepts 0 haccepts⟩
      apply dottedName_of_chains hname
      · exact fun h => hopening (List.mem_append_left _ h)
      · exact hopens.left_of_append
      · exact hcloses.left_of_append

end Check

/-- A type with arguments behind the name of its schema. -/
theorem single_name_iff_decimal : ∃ ps, namePieces "[sys].decimal(18, 4)" = some ps ∧
    (IsSingleName "[sys].decimal(18, 4)" ps ↔ IsPlain ps) :=
  @single_name_iff .ascii "[sys].decimal(18, 4)" .wraps "TVP db_type" (by rfl)

/-- A segment directly behind a name is accepted, and it is a second token. -/
theorem attached_segment_accepted :
    (∀ build what, @validateSqlIdentifier .ascii build what "t[x]" = .ok ()) ∧
      namePieces "t[x]" = some [.plain 't', .quoted ['x']] ∧
        ∀ ps, ¬ IsSingleName "t[x]" ps := by
  refine ⟨fun _ _ => rfl, rfl, fun ps hname => ?_⟩
  obtain rfl : [.plain 't', .quoted ['x']] = ps := Option.some.inj hname.scanned
  have hdot := (List.isChain_cons_cons.mp hname.opens).1 trivial
  exact absurd hdot (by decide)

end Tiberius
