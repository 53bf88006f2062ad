import Mathlib.Data.List.Basic

/-!
Cutting a list into pieces of a fixed size, the last one holding what is left.
The number of turns is bounded from outside; for a positive size, as many turns
as the list has elements are enough, and the pieces make up the list again.
-/

namespace Tiberius.Reading

variable {α : Type}

/-- The pieces of a list, each the `size` next elements or all that are left. -/
def chunksOf (size : ℕ) : ℕ → List α → List (List α)
  | 0, _ => []
  | fuel + 1, xs =>
    if xs.isEmpty then [] else xs.take size :: chunksOf size fuel (xs.drop size)

theorem chunksOf_nil (size fuel : ℕ) : chunksOf size fuel ([] : List α) = [] := by
  cases fuel with
  | zero => rfl
  | succ fuel => simp only [chunksOf, List.isEmpty_nil, if_true]

theorem chunksOf_succ (size fuel : ℕ) {xs : List α} (hxs : xs ≠ []) :
    chunksOf size (fuel + 1) xs = xs.take size :: chunksOf size fuel (xs.drop size) := by
  have hempty : xs.isEmpty = false := by
    cases xs with
    | nil => exact absurd rfl hxs
    | cons x rest => rfl
  simp only [chunksOf, hempty, Bool.false_eq_true, if_false]

private theorem drop_length_le {size fuel : ℕ} {xs : List α} (hsize : 0 < size) (hxs : xs ≠ [])
    (hfuel : xs.length ≤ fuel + 1) : (xs.drop size).length ≤ fuel := by
  have hpos := List.length_pos_iff.mpr hxs
  rw [List.length_drop]
  omega

theorem chunksOf_flatten {size : ℕ} (hsize : 0 < size) (fuel : ℕ) (xs : List α)
    (hfuel : xs.length ≤ fuel) : (chunksOf size fuel xs).flatten = xs := by
  induction fuel generalizing xs with
  | zero =>
    have hnil : xs = [] := List.length_eq_zero_iff.mp (Nat.le_zero.mp hfuel)
    subst hnil
    rfl
  | succ fuel ih =>
    by_cases hxs : xs = []
    · subst hxs
      rw [chunksOf_nil]
      rfl
    · rw [chunksOf_succ size fuel hxs, List.flatten_cons,
        ih _ (drop_length_le hsize hxs hfuel), List.take_append_drop]

theorem chunksOf_ne_nil {size fuel : ℕ} {xs : List α} (hxs : xs ≠ []) (hfuel : xs.length ≤ fuel) :
    chunksOf size fuel xs ≠ [] := by
  have hpos := List.length_pos_iff.mpr hxs
  obtain ⟨turns, rfl⟩ : ∃ turns, fuel = turns + 1 := ⟨fuel - 1, by omega⟩
  rw [chunksOf_succ size turns hxs]
  exact List.cons_ne_nil _ _

theorem chunksOf_isEmpty {size fuel : ℕ} {xs : List α} (hfuel : xs.length ≤ fuel) :
    (chunksOf size fuel xs).isEmpty = xs.isEmpty := by
  by_cases hxs : xs = []
  · subst hxs
    rw [chunksOf_nil]
    rfl
  · rw [List.isEmpty_eq_false_iff.mpr hxs,
      List.isEmpty_eq_false_iff.mpr (chunksOf_ne_nil hxs hfuel)]

theorem chunksOf_length_le (size fuel : ℕ) (xs : List α) :
    ∀ piece ∈ chunksOf size fuel xs, piece.length ≤ size := by
  induction fuel generalizing xs with
  | zero =>
    intro piece hpiece
    simp only [chunksOf, List.not_mem_nil] at hpiece
  | succ fuel ih =>
    intro piece hpiece
    by_cases hxs : xs = []
    · subst hxs
      simp only [chunksOf_nil, List.not_mem_nil] at hpiece
    · rw [chunksOf_succ size fuel hxs, List.mem_cons] at hpiece
      rcases hpiece with rfl | hrest
      · exact List.length_take_le _ _
      · exact ih _ piece hrest

/-- Every piece but the last one is full. -/
theorem chunksOf_dropLast_length {size : ℕ} (fuel : ℕ) (xs : List α) :
    ∀ piece ∈ (chunksOf size fuel xs).dropLast, piece.length = size := by
  induction fuel generalizing xs with
  | zero =>
    intro piece hpiece
    simp only [chunksOf, List.dropLast_nil, List.not_mem_nil] at hpiece
  | succ fuel ih =>
    intro piece hpiece
    by_cases hxs : xs = []
    · subst hxs
      simp only [chunksOf_nil, List.dropLast_nil, List.not_mem_nil] at hpiece
    · rw [chunksOf_succ size fuel hxs] at hpiece
      by_cases hrest : chunksOf size fuel (xs.drop size) = []
      · simp only [hrest, List.dropLast_singleton, List.not_mem_nil] at hpiece
      · rw [List.dropLast_cons_of_ne_nil hrest, List.mem_cons] at hpiece
        rcases hpiece with rfl | hmem
        · rw [List.length_take]
          have hdrop : xs.drop size ≠ [] := by
            intro hnil
            rw [hnil, chunksOf_nil] at hrest
            exact hrest rfl
          have hlen := List.length_pos_iff.mpr hdrop
          rw [List.length_drop] at hlen
          omega
        · exact ih _ piece hmem

end Tiberius.Reading
