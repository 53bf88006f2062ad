import Mathlib.Data.List.Basic

/-!
Items that are posted on a line, one at a time. A post that returns has been taken. One
that does not return was refused, or it has cut the line, and then its item may have
arrived all the same. A line that is cut takes nothing more.
-/

namespace Tiberius.Staging

/-- What has arrived at the end of a line, and whether it is cut. -/
structure Line (α : Type) where
  arrived : List α
  cut : Bool

namespace Line

variable {α : Type}

def new : Line α where
  arrived := []
  cut := false

/-- What posting an item does to a line, by whether it returns. -/
inductive Posted (item : α) : Bool → Line α → Line α → Prop where
  | taken (arrived : List α) : Posted item true ⟨arrived, false⟩ ⟨arrived ++ [item], false⟩
  | refused (line : Line α) : Posted item false line line
  | lost (arrived : List α) : Posted item false ⟨arrived, false⟩ ⟨arrived, true⟩
  | torn (arrived : List α) : Posted item false ⟨arrived, false⟩ ⟨arrived ++ [item], true⟩

/-- The posts on a new line, in order, with whether each has returned. -/
inductive Records : List (α × Bool) → Line α → Prop where
  | nil : Records [] new
  | post {posts : List (α × Bool)} {line after : Line α} (item : α) (returned : Bool)
      (hposts : Records posts line) (hposted : Posted item returned line after) :
      Records (posts ++ [(item, returned)]) after

/-- The items of the posts that have returned. -/
def returned (posts : List (α × Bool)) : List α :=
  (posts.filter Prod.snd).map Prod.fst

theorem returned_taken (posts : List (α × Bool)) (item : α) :
    returned (posts ++ [(item, true)]) = returned posts ++ [item] := by
  simp only [returned, List.filter_append, List.filter_cons_of_pos, List.filter_nil,
    List.map_append, List.map_cons, List.map_nil]

theorem returned_failed (posts : List (α × Bool)) (item : α) :
    returned (posts ++ [(item, false)]) = returned posts := by
  simp only [returned, List.filter_append, List.filter_cons_of_neg, Bool.false_eq_true,
    not_false_eq_true, List.filter_nil, List.append_nil]

/-- The posts that have returned have arrived, each once and in order, and at most one
more behind them, which has cut the line. -/
theorem Records.arrived {posts : List (α × Bool)} {line : Line α} (hrecords : Records posts line) :
    ∃ torn, line.arrived = returned posts ++ torn ∧ torn.length ≤ 1 ∧
      (torn ≠ [] → line.cut = true) ∧ (returned posts ++ torn).Sublist (posts.map Prod.fst) := by
  induction hrecords with
  | nil => exact ⟨[], rfl, Nat.zero_le 1, fun hne => absurd rfl hne, List.Sublist.refl []⟩
  | @post posts line after item done hposts hposted ih =>
    obtain ⟨torn, harrived, hlength, hcut, hsublist⟩ := ih
    have huncut : line.cut = false → torn = [] := by
      intro hopen
      by_contra hne
      rw [hcut hne] at hopen
      cases hopen
    rw [List.map_append, List.map_cons, List.map_nil]
    cases hposted with
    | taken arrived =>
      obtain rfl := huncut rfl
      rw [List.append_nil] at harrived hsublist
      rw [returned_taken]
      refine ⟨[], ?_, Nat.zero_le 1, fun hne => absurd rfl hne, ?_⟩
      · rw [List.append_nil, ← show arrived = _ from harrived]
      · rw [List.append_nil]
        exact hsublist.append (List.Sublist.refl [item])
    | refused =>
      rw [returned_failed]
      exact ⟨torn, harrived, hlength, hcut, hsublist.trans (List.sublist_append_left _ _)⟩
    | lost arrived =>
      rw [returned_failed]
      exact ⟨torn, harrived, hlength, fun _ => rfl,
        hsublist.trans (List.sublist_append_left _ _)⟩
    | torn arrived =>
      obtain rfl := huncut rfl
      rw [List.append_nil] at harrived hsublist
      rw [returned_failed]
      refine ⟨[item], ?_, Nat.le_refl 1, fun _ => rfl, ?_⟩
      · rw [← show arrived = _ from harrived]
      · exact hsublist.append (List.Sublist.refl [item])

end Line

end Tiberius.Staging
