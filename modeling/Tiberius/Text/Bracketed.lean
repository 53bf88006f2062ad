import Tiberius.Text.Doubled

/-!
Texts with quoted segments in brackets. A segment runs from its opening bracket to the
first closing one that is not doubled; outside of segments every character stands for
itself. A text whose last segment is not closed has no pieces.
-/

namespace Bracketed

inductive Piece (α : Type) where
  | quoted (body : List α)
  | plain (c : α)
  deriving DecidableEq, Repr

def Piece.IsQuoted {α : Type} : Piece α → Prop
  | .quoted _ => True
  | .plain _ => False

variable {α : Type} [DecidableEq α]

/-- The pieces of a text. The body of the segment that is open is carried along. -/
def pieces (opening closing : α) : Option (List α) → List α → Option (List (Piece α))
  | none, [] => some []
  | some _, [] => none
  | none, c :: rest =>
    if c = opening then pieces opening closing (some []) rest
    else (pieces opening closing none rest).map (.plain c :: ·)
  | some body, [c] => if c = closing then some [.quoted body] else none
  | some body, c :: d :: rest =>
    if c = closing then
      if d = closing then pieces opening closing (some (body ++ [closing])) rest
      else (pieces opening closing none (d :: rest)).map (.quoted body :: ·)
    else pieces opening closing (some (body ++ [c])) (d :: rest)

/-- How a piece is written. -/
def Piece.text (opening closing : α) : Piece α → List α
  | .quoted body => opening :: (Doubled.double closing body ++ [closing])
  | .plain c => [c]

def render (opening closing : α) (ps : List (Piece α)) : List α :=
  ps.flatMap (Piece.text opening closing)

variable {opening closing : α}

/-- The steps of a reader with the body of an open segment, if there is one. -/
theorem induct (opening closing : α) {motive : Option (List α) → List α → Prop}
    (closed_nil : motive none []) (open_nil : ∀ body, motive (some body) [])
    (double : ∀ body rest, motive (some (body ++ [closing])) rest →
      motive (some body) (closing :: closing :: rest))
    (close : ∀ body rest, rest.head? ≠ some closing → motive none rest →
      motive (some body) (closing :: rest))
    (inside : ∀ body c rest, c ≠ closing → motive (some (body ++ [c])) rest →
      motive (some body) (c :: rest))
    (start : ∀ rest, motive (some []) rest → motive none (opening :: rest))
    (outside : ∀ c rest, c ≠ opening → motive none rest → motive none (c :: rest)) :
    ∀ state text, motive state text := by
  have hsteps : ∀ n state (text : List α), text.length ≤ n → motive state text := by
    intro n
    induction n with
    | zero =>
      intro state text hlength
      obtain rfl := List.eq_nil_of_length_eq_zero (Nat.le_zero.mp hlength)
      cases state with
      | none => exact closed_nil
      | some body => exact open_nil body
    | succ n ih =>
      intro state text hlength
      cases text with
      | nil => exact ih state [] (Nat.zero_le n)
      | cons c rest =>
        have hrest : rest.length ≤ n := Nat.le_of_succ_le_succ hlength
        cases state with
        | none =>
          by_cases hc : c = opening
          · subst hc
            exact start rest (ih _ rest hrest)
          · exact outside c rest hc (ih _ rest hrest)
        | some body =>
          by_cases hc : c = closing
          · subst hc
            by_cases hhead : rest.head? = some c
            · obtain ⟨more, rfl⟩ := List.head?_eq_some_iff.mp hhead
              have hmore : more.length ≤ n := Nat.le_of_succ_le hrest
              exact double body more (ih _ more hmore)
            · exact close body rest hhead (ih _ rest hrest)
          · exact inside body c rest hc (ih _ rest hrest)
  intro state text
  exact hsteps text.length state text (Nat.le_refl _)

section Steps

variable {body rest : List α} {c : α}

theorem pieces_start : pieces opening closing none (opening :: rest) =
    pieces opening closing (some []) rest := by
  rw [pieces, if_pos rfl]

theorem pieces_outside (hc : c ≠ opening) : pieces opening closing none (c :: rest) =
    (pieces opening closing none rest).map (.plain c :: ·) := by
  rw [pieces, if_neg hc]

theorem pieces_double : pieces opening closing (some body) (closing :: closing :: rest) =
    pieces opening closing (some (body ++ [closing])) rest := by
  rw [pieces, if_pos rfl, if_pos rfl]

theorem pieces_close (hrest : rest.head? ≠ some closing) :
    pieces opening closing (some body) (closing :: rest) =
      (pieces opening closing none rest).map (.quoted body :: ·) := by
  cases rest with
  | nil => exact if_pos rfl
  | cons d rest =>
    have hd : d ≠ closing := fun h => hrest (congrArg some h)
    refine (if_pos rfl).trans ?_
    rw [if_neg hd]

theorem pieces_inside (hc : c ≠ closing) : pieces opening closing (some body) (c :: rest) =
    pieces opening closing (some (body ++ [c])) rest := by
  cases rest with
  | nil => exact if_neg hc
  | cons d rest => exact if_neg hc

/-- Outside of segments the pieces begin with the first character. -/
theorem head_of_pieces {ps : List (Piece α)} (hc : c ≠ opening)
    (hps : pieces opening closing none (c :: rest) = some ps) : ps.head? = some (.plain c) := by
  rw [pieces_outside hc, Option.map_eq_some_iff] at hps
  obtain ⟨more, -, rfl⟩ := hps
  rfl

end Steps

/-- What has been read of a text when a segment with some body is open. -/
def front (opening closing : α) : Option (List α) → List α
  | none => []
  | some body => opening :: Doubled.double closing body

/-- The pieces are the whole text. -/
theorem render_of_pieces (state : Option (List α)) (text : List α) :
    ∀ ps, pieces opening closing state text = some ps →
      render opening closing ps = front opening closing state ++ text := by
  induction state, text using induct opening closing with
  | closed_nil =>
    intro ps hps
    cases hps
    rfl
  | open_nil body =>
    intro ps hps
    cases hps
  | double body rest ih =>
    intro ps hps
    rw [pieces_double] at hps
    rw [ih ps hps, front, front, Doubled.double_append, Doubled.double_cons, if_pos rfl]
    simp
  | close body rest hhead ih =>
    intro ps hps
    rw [pieces_close hhead, Option.map_eq_some_iff] at hps
    obtain ⟨more, hmore, rfl⟩ := hps
    have hrender : render opening closing more = rest := ih more hmore
    rw [render, List.flatMap_cons, ← render, hrender, Piece.text, front, List.cons_append,
      List.cons_append, List.append_assoc]
    rfl
  | inside body c rest hc ih =>
    intro ps hps
    rw [pieces_inside hc] at hps
    rw [ih ps hps, front, front, Doubled.double_append, Doubled.double_cons, if_neg hc]
    simp
  | start rest ih =>
    intro ps hps
    rw [pieces_start] at hps
    exact ih ps hps
  | outside c rest hc ih =>
    intro ps hps
    rw [pieces_outside hc, Option.map_eq_some_iff] at hps
    obtain ⟨more, hmore, rfl⟩ := hps
    exact congrArg (c :: ·) (ih more hmore)

/-- An opening bracket always opens a segment. -/
theorem opening_not_mem_pieces (state : Option (List α)) (text : List α) :
    ∀ ps, pieces opening closing state text = some ps → .plain opening ∉ ps := by
  induction state, text using induct opening closing with
  | closed_nil =>
    intro ps hps
    cases hps
    exact List.not_mem_nil
  | open_nil body =>
    intro ps hps
    cases hps
  | double body rest ih =>
    intro ps hps
    exact ih ps (pieces_double.symm.trans hps)
  | close body rest hhead ih =>
    intro ps hps
    rw [pieces_close hhead, Option.map_eq_some_iff] at hps
    obtain ⟨more, hmore, rfl⟩ := hps
    simpa using ih more hmore
  | inside body c rest hc ih =>
    intro ps hps
    exact ih ps ((pieces_inside hc).symm.trans hps)
  | start rest ih =>
    intro ps hps
    exact ih ps (pieces_start.symm.trans hps)
  | outside c rest hc ih =>
    intro ps hps
    rw [pieces_outside hc, Option.map_eq_some_iff] at hps
    obtain ⟨more, hmore, rfl⟩ := hps
    simpa [Ne.symm hc] using ih more hmore

end Bracketed
