import Mathlib.Logic.Relation

/-!
Runs of a system whose steps may be refused. A run takes actions one after the
other, each of them enabled in the state it is taken in and meeting a condition
there. What holds at the start and is kept by every such step holds in every
state a run reaches.
-/

namespace Tiberius.Reading

variable {σ ι : Type}

/-- One step of a run by an action that meets the condition. -/
def Moves (step : σ → ι → Option σ) (Meets : σ → ι → Prop) (state next : σ) : Prop :=
  ∃ action, Meets state action ∧ step state action = some next

/-- The states reached by runs whose steps all meet the condition. -/
def Reached (step : σ → ι → Option σ) (Meets : σ → ι → Prop) : σ → σ → Prop :=
  Relation.ReflTransGen (Moves step Meets)

theorem Reached.keeps {step : σ → ι → Option σ} {Meets : σ → ι → Prop} {start state : σ}
    (hreach : Reached step Meets start state) (Inv : σ → Prop) (hstart : Inv start)
    (hstep : ∀ state action next, Inv state → Meets state action →
      step state action = some next → Inv next) : Inv state := by
  induction hreach with
  | refl => exact hstart
  | tail _ hmove ih =>
    obtain ⟨action, hmeets, hnext⟩ := hmove
    exact hstep _ action _ ih hmeets hnext

/-- The state at the end of a list of actions, if none of them is refused. -/
def perform (step : σ → ι → Option σ) : σ → List ι → Option σ
  | state, [] => some state
  | state, action :: rest => (step state action).bind fun next => perform step next rest

theorem Reached.of_perform {step : σ → ι → Option σ} {start state : σ} (actions : List ι)
    (hperform : perform step start actions = some state) :
    Reached step (fun _ _ => True) start state := by
  induction actions generalizing start with
  | nil =>
    cases hperform
    exact Relation.ReflTransGen.refl
  | cons action rest ih =>
    obtain ⟨next, hnext, hrest⟩ := Option.bind_eq_some_iff.mp hperform
    exact Relation.ReflTransGen.head ⟨action, trivial, hnext⟩ (ih hrest)

end Tiberius.Reading
