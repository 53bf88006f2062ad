import Mathlib.Data.List.Forall2
import Tiberius.Writing.Written

/-!
Computations one behind the other, up to the first that fails. A sequence of them
comes to its end exactly if each of them does, and it fails with the error of the
first that fails, whatever stands behind it.
-/

namespace Tiberius.Writing

/-- An element of one kind, behind elements of another kind only. -/
def Until {α : Type} (before here : α → Prop) : List α → Prop
  | [] => False
  | head :: tail => here head ∨ before head ∧ Until before here tail

namespace Until

variable {α γ ι : Type} {before here : α → Prop}

theorem congr {before' here' : α → Prop} {list : List α}
    (hbefore : ∀ item ∈ list, before item ↔ before' item)
    (hhere : ∀ item ∈ list, here item ↔ here' item) :
    Until before here list ↔ Until before' here' list := by
  induction list with
  | nil => exact Iff.rfl
  | cons head tail ih =>
    have htail := ih (fun item hitem => hbefore item (List.mem_cons_of_mem head hitem))
      fun item hitem => hhere item (List.mem_cons_of_mem head hitem)
    unfold Until
    rw [hbefore head List.mem_cons_self, hhere head List.mem_cons_self, htail]

theorem map {f : γ → α} {list : List γ} :
    Until before here (list.map f) ↔
      Until (fun item => before (f item)) (fun item => here (f item)) list := by
  induction list with
  | nil => exact Iff.rfl
  | cons head tail ih => exact or_congr_right (and_congr_right fun _ => ih)

theorem append {first second : List α} :
    Until before here (first ++ second) ↔
      Until before here first ∨ (∀ item ∈ first, before item) ∧ Until before here second := by
  induction first with
  | nil =>
    rw [List.nil_append]
    exact ⟨fun h => .inr ⟨fun _ hitem => absurd hitem List.not_mem_nil, h⟩,
      fun h => h.elim False.elim And.right⟩
  | cons head tail ih =>
    rw [List.cons_append, Until, Until, ih, List.forall_mem_cons]
    tauto

/-- Kinds that are told apart by an index. -/
theorem exists_index {here : ι → α → Prop} {list : List α} :
    (∃ index, Until before (here index) list) ↔
      Until before (fun item => ∃ index, here index item) list := by
  induction list with
  | nil => exact ⟨fun h => h.elim fun _ => id, False.elim⟩
  | cons head tail ih =>
    unfold Until
    rw [← ih]
    constructor
    · rintro ⟨index, hhere | ⟨hbefore, htail⟩⟩
      · exact .inl ⟨index, hhere⟩
      · exact .inr ⟨hbefore, index, htail⟩
    · rintro (⟨index, hhere⟩ | ⟨hbefore, index, htail⟩)
      · exact ⟨index, .inl hhere⟩
      · exact ⟨index, .inr ⟨hbefore, htail⟩⟩

/-- Where no element is of the kind, none is reached. -/
theorem elim {list : List α} (hnone : ∀ item ∈ list, ¬ here item) : ¬ Until before here list := by
  induction list with
  | nil => exact id
  | cons head tail ih =>
    rintro (hhere | ⟨-, htail⟩)
    · exact hnone head List.mem_cons_self hhere
    · exact ih (fun item hitem => hnone item (List.mem_cons_of_mem head hitem)) htail

end Until

/-- Each element of a list is related to one of another list. -/
theorem exists_forall₂ {α γ : Type} {rel : α → γ → Prop} {list : List α} :
    (∃ others, List.Forall₂ rel list others) ↔ ∀ item ∈ list, ∃ other, rel item other := by
  induction list with
  | nil => exact iff_of_true ⟨[], .nil⟩ fun item hitem => absurd hitem List.not_mem_nil
  | cons head tail ih =>
    rw [List.forall_mem_cons, ← ih]
    constructor
    · rintro ⟨others, hothers⟩
      obtain ⟨other, rest, hhead, htail, -⟩ := List.forall₂_cons_left_iff.mp hothers
      exact ⟨⟨other, hhead⟩, rest, htail⟩
    · rintro ⟨⟨other, hhead⟩, rest, htail⟩
      exact ⟨other :: rest, .cons hhead htail⟩

/-- A lookup at the index of each element takes the two lists side by side. -/
theorem mapIdx_lookup {α γ δ : Type} (f : α → γ → δ) (missing : δ) (list : List α)
    (others : List γ) :
    (list.mapIdx fun i item => (others[i]?.map (f item)).getD missing) =
      (list.zip others).map (fun pair => f pair.1 pair.2) ++
        (list.drop others.length).map fun _ => missing := by
  induction list generalizing others with
  | nil =>
    rw [List.drop_nil]
    rfl
  | cons item list ih =>
    rw [List.mapIdx_cons]
    cases others with
    | nil =>
      have hrest := ih []
      rw [List.zip_nil_right, List.map_nil, List.nil_append, List.length_nil, List.drop_zero] at hrest
      rw [List.zip_nil_right, List.map_nil, List.nil_append, List.length_nil, List.drop_zero,
        List.map_cons, ← hrest]
      rfl
    | cons other others => exact congrArg (f item other :: ·) (ih others)

namespace Written

variable {ε β α δ : Type}

/-- The computations in order, up to the first that fails. -/
def all : List (Written ε β Unit) → Written ε β Unit
  | [] => done [] ()
  | step :: steps => step.bind fun _ => all steps

theorem eq_done_of_result {written : Written ε β α} {value : α}
    (hresult : written.result = .ok value) : written = done written.output value := by
  obtain ⟨output, result⟩ := written
  cases hresult
  rfl

@[simp] theorem after_result (first : List β) (written : Written ε β α) :
    (written.after first).result = written.result := rfl

/-- What follows a computation without a result of its own. -/
theorem result_bind_of_ok {step : Written ε β Unit} (hresult : step.result = .ok ())
    (f : Unit → Written ε β α) : (step.bind f).result = (f ()).result := by
  rw [eq_done_of_result hresult]
  rfl

/-- An error that neither part of a computation fails with. -/
theorem result_bind_ne {written : Written ε β α} {f : α → Written ε β δ} {error : ε}
    (hfirst : written.result ≠ .error error) (hsecond : ∀ value, (f value).result ≠ .error error) :
    (written.bind f).result ≠ .error error := by
  cases hresult : written.result with
  | ok value =>
    rw [eq_done_of_result hresult]
    exact hsecond value
  | error other =>
    rw [result_bind_of_error hresult]
    rintro ⟨⟩
    exact hfirst hresult

theorem result_eq_ok_iff {written : Written ε β α} {value : α} :
    written.result = .ok value ↔ ∃ output, written = done output value := by
  constructor
  · exact fun hresult => ⟨_, eq_done_of_result hresult⟩
  · rintro ⟨output, rfl⟩
    rfl

theorem result_bind_eq_ok_iff {step : Written ε β Unit} {f : Unit → Written ε β α} {value : α} :
    (step.bind f).result = .ok value ↔ step.result = .ok () ∧ (f ()).result = .ok value := by
  cases hstep : step.result with
  | ok _ => rw [result_bind_of_ok hstep, and_iff_right rfl]
  | error error =>
    rw [result_bind_of_error hstep]
    exact iff_of_false (fun h => by cases h) fun h => by cases h.1

/-- A computation fails as its first part does, if the second does not fail. -/
theorem result_bind_eq_error_iff {step : Written ε β Unit} {f : Unit → Written ε β α} {value : α}
    {error : ε} (hsecond : (f ()).result = .ok value) :
    (step.bind f).result = .error error ↔ step.result = .error error := by
  cases hstep : step.result with
  | ok _ =>
    rw [result_bind_of_ok hstep, hsecond]
    exact iff_of_false (fun h => by cases h) fun h => by cases h
  | error other =>
    rw [result_bind_of_error hstep, Except.error.injEq, Except.error.injEq]

theorem all_result_eq_ok_iff {steps : List (Written ε β Unit)} :
    (all steps).result = .ok () ↔ ∀ step ∈ steps, step.result = .ok () := by
  induction steps with
  | nil => exact iff_of_true rfl fun step hstep => absurd hstep List.not_mem_nil
  | cons step steps ih =>
    rw [List.forall_mem_cons, ← ih]
    cases hstep : step.result with
    | ok value => rw [all, result_bind_of_ok hstep, and_iff_right rfl]
    | error error =>
      rw [all, result_bind_of_error hstep]
      exact iff_of_false (fun h => by cases h) fun h => by cases h.1

theorem all_result_eq_error_iff {steps : List (Written ε β Unit)} {error : ε} :
    (all steps).result = .error error ↔
      Until (fun step => step.result = .ok ()) (fun step => step.result = .error error) steps := by
  induction steps with
  | nil => exact iff_of_false (fun h => by cases h) id
  | cons step steps ih =>
    rw [Until, ← ih]
    cases hstep : step.result with
    | ok value =>
      rw [all, result_bind_of_ok hstep, and_iff_right rfl]
      exact ⟨.inr, fun h => h.elim (fun h => by cases h) id⟩
    | error other =>
      rw [all, result_bind_of_error hstep]
      exact ⟨.inl, fun h => h.elim id fun h => by cases h.1⟩

/-- What the computations have written stands in their order. -/
theorem all_eq_done_iff {steps : List (Written ε β Unit)} {output : List β} :
    all steps = done output () ↔
      ∃ pieces, List.Forall₂ (fun step piece => step = done piece ()) steps pieces ∧
        output = pieces.flatten := by
  induction steps generalizing output with
  | nil =>
    constructor
    · intro hdone
      exact ⟨[], .nil, (done_inj.mp hdone).1.symm⟩
    · rintro ⟨_, ⟨⟩, rfl⟩
      rfl
  | cons step steps ih =>
    constructor
    · intro hdone
      obtain ⟨first, second, _, rfl, hfirst, hsecond⟩ := bind_eq_done hdone
      obtain ⟨pieces, hpieces, rfl⟩ := ih.mp hsecond
      exact ⟨first :: pieces, .cons hfirst hpieces, rfl⟩
    · rintro ⟨pieces, hpieces, rfl⟩
      cases hpieces with
      | cons hfirst hrest =>
        rw [all, hfirst, ih.mpr ⟨_, hrest, rfl⟩]
        rfl

end Written

end Tiberius.Writing
