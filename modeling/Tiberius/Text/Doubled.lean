import Mathlib.Data.List.Basic

/-!
Text between marks in which a mark is written twice. The text ends at the first mark
that is not followed by another one, so nothing in it can end it.
-/

namespace Doubled

variable {α : Type} [DecidableEq α]

/-- Every mark twice. -/
def double (mark : α) (text : List α) : List α :=
  text.flatMap fun c => if c = mark then [mark, mark] else [c]

/-- The text up to the first single mark, with one mark for two, and what follows. -/
def scan (mark : α) : List α → Option (List α × List α)
  | [] => none
  | [c] => if c = mark then some ([], []) else none
  | c :: d :: rest =>
    if c = mark then
      if d = mark then (scan mark rest).map fun found => (mark :: found.1, found.2)
      else some ([], d :: rest)
    else (scan mark (d :: rest)).map fun found => (c :: found.1, found.2)

variable {mark other : α}

@[simp] theorem double_nil : double mark [] = [] := rfl

theorem double_cons (c : α) (text : List α) :
    double mark (c :: text) = (if c = mark then [mark, mark] else [c]) ++ double mark text := rfl

theorem double_append (first second : List α) :
    double mark (first ++ second) = double mark first ++ double mark second :=
  List.flatMap_append

theorem double_of_not_mem {text : List α} (h : mark ∉ text) : double mark text = text := by
  induction text with
  | nil => rfl
  | cons c rest ih =>
    have hne : c ≠ mark := (List.ne_of_not_mem_cons h).symm
    rw [double_cons, if_neg hne, ih (List.not_mem_of_not_mem_cons h)]
    rfl

/-- The marks of two kinds are doubled in either order. -/
theorem double_comm (hne : mark ≠ other) (text : List α) :
    double mark (double other text) = double other (double mark text) := by
  induction text with
  | nil => rfl
  | cons c rest ih =>
    have hpair : ∀ a b : α, a ≠ b → double a [b, b] = [b, b] := by
      intro a b hab
      apply double_of_not_mem
      simp [hab]
    by_cases hmark : c = mark
    · subst hmark
      rw [double_cons, if_neg hne, double_cons, if_pos rfl, double_append, double_append,
        hpair other c hne.symm, ih, double_cons, if_pos rfl]
      rfl
    · by_cases hother : c = other
      · subst hother
        rw [double_cons, if_pos rfl, double_cons, if_neg hmark, double_append, double_append,
          hpair mark c hne, ih, double_cons, if_pos rfl]
        rfl
      · rw [double_cons, if_neg hother, double_cons, if_neg hmark, double_append, double_append,
          ih, double_cons, if_neg hmark, double_cons, if_neg hother]
        rfl

theorem scan_mark {rest : List α} (hrest : rest.head? ≠ some mark) :
    scan mark (mark :: rest) = some ([], rest) := by
  cases rest with
  | nil => exact if_pos rfl
  | cons d rest =>
    have hd : d ≠ mark := fun h => hrest (congrArg some h)
    rw [scan, if_pos rfl, if_neg hd]

theorem scan_mark_mark (rest : List α) :
    scan mark (mark :: mark :: rest) =
      (scan mark rest).map fun found => (mark :: found.1, found.2) := by
  rw [scan, if_pos rfl, if_pos rfl]

theorem scan_other {c : α} (hc : c ≠ mark) (rest : List α) :
    scan mark (c :: rest) = (scan mark rest).map fun found => (c :: found.1, found.2) := by
  cases rest with
  | nil => exact if_neg hc
  | cons d rest => rw [scan, if_neg hc]

/-- A doubled text is read up to the mark behind it. -/
theorem scan_double {rest : List α} (hrest : rest.head? ≠ some mark) (text : List α) :
    scan mark (double mark text ++ mark :: rest) = some (text, rest) := by
  induction text with
  | nil => exact scan_mark hrest
  | cons c text ih =>
    rw [double_cons, List.append_assoc]
    split_ifs with hc
    · subst hc
      exact (scan_mark_mark _).trans (congrArg _ ih)
    · exact (scan_other hc _).trans (congrArg _ ih)

end Doubled
