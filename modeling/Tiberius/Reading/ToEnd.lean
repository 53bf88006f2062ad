import Mathlib.Data.List.Forall2
import Tiberius.Reading.Exact

/-!
A list of pieces without a count. The same program reads one piece after the other
until nothing is left; pieces that are not empty are told apart by the program alone.
-/

namespace Tiberius.Reading

namespace Program

variable {ε γ β α : Type}

/-- Read values up to the end of the symbols; every value takes a turn. -/
def toEnd (p : Program ε γ β α) (env : γ) : ℕ → List β → Option (List α)
  | _, [] => some []
  | 0, _ :: _ => none
  | fuel + 1, symbols =>
    match p.run env symbols with
    | .done value rest => (toEnd p env fuel rest).map (value :: ·)
    | _ => none

theorem toEnd_cons {p : Program ε γ β α} {env : γ} {piece : List β} {value : α} (fuel : ℕ)
    (rest : List β) (hpiece : p.Reads env piece value) (hne : piece ≠ []) :
    p.toEnd env (fuel + 1) (piece ++ rest) = (p.toEnd env fuel rest).map (value :: ·) := by
  obtain ⟨first, others, rfl⟩ := List.exists_cons_of_ne_nil hne
  have hrun := hpiece.run_append rest
  rw [List.cons_append] at hrun ⊢
  simp only [toEnd, hrun]

/-- Pieces that stand one behind the other are read back as their values. -/
theorem toEnd_pieces {p : Program ε γ β α} {env : γ} {pieces : List (List β)} {values : List α}
    (hpieces : List.Forall₂ (p.Reads env) pieces values) (hne : ∀ piece ∈ pieces, piece ≠ [])
    (fuel : ℕ) (hfuel : pieces.flatten.length ≤ fuel) :
    p.toEnd env fuel pieces.flatten = some values := by
  induction hpieces generalizing fuel with
  | nil => cases fuel <;> rfl
  | @cons piece value pieces values hpiece hpieces ih =>
    have hfirst := hne piece List.mem_cons_self
    have hlength := List.length_pos_iff.mpr hfirst
    rw [List.flatten_cons, List.length_append] at hfuel
    obtain ⟨fuel, rfl⟩ := Nat.exists_eq_add_of_lt (Nat.lt_of_lt_of_le hlength
      (Nat.le_trans (Nat.le_add_right _ _) hfuel))
    have hrest : p.toEnd env (0 + fuel) pieces.flatten = some values :=
      ih (fun other hother => hne other (List.mem_cons_of_mem piece hother)) _ (by omega)
    rw [List.flatten_cons, toEnd_cons _ _ hpiece hfirst, hrest]
    rfl

end Program

end Tiberius.Reading
