import Mathlib.Data.List.Basic

/-!
Computations in stages on a state. A stage returns a value, fails with an error,
panics, or does not return: it waits, or its caller has dropped it. Whatever
happens leaves a state behind, so a triple says two things of a computation,
what holds when it returns and what holds when it is cut short.
-/

namespace Tiberius.Staging

/-- How a computation on a state ends. -/
inductive Exit (ε σ α : Type) where
  | returned (value : α) (state : σ)
  | failed (error : ε) (state : σ)
  | panicked (state : σ)
  | stopped (state : σ)

namespace Exit

variable {ε σ α β : Type}

def state : Exit ε σ α → σ
  | returned _ state => state
  | failed _ state => state
  | panicked state => state
  | stopped state => state

/-- What follows a computation that has returned. -/
def andThen (exit : Exit ε σ α) (next : α → σ → Exit ε σ β) : Exit ε σ β :=
  match exit with
  | returned value state => next value state
  | failed error state => failed error state
  | panicked state => panicked state
  | stopped state => stopped state

/-- `After` holds of what is returned, and `Cut` of every other end. -/
def Meets (After : α → σ → Prop) (Cut : σ → Prop) : Exit ε σ α → Prop
  | returned value state => After value state
  | failed _ state => Cut state
  | panicked state => Cut state
  | stopped state => Cut state

variable {After : α → σ → Prop} {Cut : σ → Prop} {exit : Exit ε σ α}

/-- A property of the state that holds however a computation ends. -/
theorem Meets.state (hmeets : exit.Meets After Cut)
    (hafter : ∀ value state, After value state → Cut state) : Cut exit.state := by
  cases exit with
  | returned value state => exact hafter value state hmeets
  | failed error state => exact hmeets
  | panicked state => exact hmeets
  | stopped state => exact hmeets

theorem Meets.weaken {After' : α → σ → Prop} {Cut' : σ → Prop} (hmeets : exit.Meets After Cut)
    (hafter : ∀ value state, After value state → After' value state)
    (hcut : ∀ state, Cut state → Cut' state) : exit.Meets After' Cut' := by
  cases exit with
  | returned value state => exact hafter value state hmeets
  | failed error state => exact hcut state hmeets
  | panicked state => exact hcut state hmeets
  | stopped state => exact hcut state hmeets

/-- The same end in other states. -/
def map (f : σ → σ) : Exit ε σ α → Exit ε σ α
  | returned value state => returned value (f state)
  | failed error state => failed error (f state)
  | panicked state => panicked (f state)
  | stopped state => stopped (f state)

/-- Two runs that end in the same way: with one value in states related by `After`, or
cut short alike in states related by `Cut`. -/
inductive Agree (After : α → σ → σ → Prop) (Cut : σ → σ → Prop) :
    Exit ε σ α → Exit ε σ α → Prop where
  | returned (value : α) (state state' : σ) (hafter : After value state state') :
      Agree After Cut (returned value state) (returned value state')
  | failed (error : ε) (state state' : σ) (hcut : Cut state state') :
      Agree After Cut (failed error state) (failed error state')
  | panicked (state state' : σ) (hcut : Cut state state') :
      Agree After Cut (panicked state) (panicked state')
  | stopped (state state' : σ) (hcut : Cut state state') :
      Agree After Cut (stopped state) (stopped state')

theorem Agree.refl (exit : Exit ε σ α) {After : α → σ → σ → Prop} {Cut : σ → σ → Prop}
    (hafter : ∀ value state, After value state state) (hcut : ∀ state, Cut state state) :
    Agree After Cut exit exit := by
  cases exit with
  | returned value state => exact .returned value state state (hafter value state)
  | failed error state => exact .failed error state state (hcut state)
  | panicked state => exact .panicked state state (hcut state)
  | stopped state => exact .stopped state state (hcut state)

theorem Agree.of_map (exit : Exit ε σ α) {f g : σ → σ} {After : α → σ → σ → Prop}
    {Cut : σ → σ → Prop} (hafter : ∀ value state, After value (f state) (g state))
    (hcut : ∀ state, Cut (f state) (g state)) : Agree After Cut (exit.map f) (exit.map g) := by
  cases exit with
  | returned value state => exact .returned value _ _ (hafter value state)
  | failed error state => exact .failed error _ _ (hcut state)
  | panicked state => exact .panicked _ _ (hcut state)
  | stopped state => exact .stopped _ _ (hcut state)

theorem Agree.weaken {After After' : α → σ → σ → Prop} {Cut Cut' : σ → σ → Prop}
    {exit exit' : Exit ε σ α} (hagree : Agree After Cut exit exit')
    (hafter : ∀ value state state', After value state state' → After' value state state')
    (hcut : ∀ state state', Cut state state' → Cut' state state') :
    Agree After' Cut' exit exit' := by
  cases hagree with
  | returned value state state' h => exact .returned value state state' (hafter value _ _ h)
  | failed error state state' h => exact .failed error state state' (hcut _ _ h)
  | panicked state state' h => exact .panicked state state' (hcut _ _ h)
  | stopped state state' h => exact .stopped state state' (hcut _ _ h)

end Exit

structure Stage (ε σ α : Type) where
  run : σ → Exit ε σ α

namespace Stage

variable {ε σ α β : Type}

instance : Monad (Stage ε σ) where
  pure value := { run := .returned value }
  bind stage next := { run := fun state =>
    (stage.run state).andThen fun value state => (next value).run state }

def fail (error : ε) : Stage ε σ α where
  run state := .failed error state

def panic : Stage ε σ α where
  run state := .panicked state

def get : Stage ε σ σ where
  run state := .returned state state

def modify (f : σ → σ) : Stage ε σ Unit where
  run state := .returned () (f state)

/-- A result that has been computed already. -/
def ofExcept : Except ε α → Stage ε σ α
  | .ok value => pure value
  | .error error => fail error

@[simp] theorem pure_run (value : α) (state : σ) :
    (pure value : Stage ε σ α).run state = .returned value state := rfl

@[simp] theorem bind_run (stage : Stage ε σ α) (next : α → Stage ε σ β) (state : σ) :
    (stage >>= next).run state =
      (stage.run state).andThen fun value state => (next value).run state := rfl

/-- A run goes on behind a stage that has returned. -/
theorem bind_returned {stage : Stage ε σ α} {state after : σ} {value : α}
    (hrun : stage.run state = .returned value after) (next : α → Stage ε σ β) :
    (stage >>= next).run state = (next value).run after := by
  rw [bind_run, hrun]
  rfl

/-- From `Before` on a stage comes to `After`, or is cut short in `Cut`. -/
def Triple (Before : σ → Prop) (stage : Stage ε σ α) (After : α → σ → Prop) (Cut : σ → Prop) :
    Prop :=
  ∀ state, Before state → (stage.run state).Meets After Cut

variable {Before Cut : σ → Prop}

/-- A property of the state that a stage keeps however it ends. -/
theorem Triple.holds {stage : Stage ε σ α} {state : σ}
    (htriple : Triple Before stage (fun _ => Cut) Cut) (hbefore : Before state) :
    Cut (stage.run state).state :=
  (htriple state hbefore).state fun _ _ hstate => hstate

theorem triple_ofExcept (result : Except ε α) (hcut : ∀ state, Before state → Cut state) :
    Triple Before (ofExcept result : Stage ε σ α)
      (fun value state => result = .ok value ∧ Before state) Cut := by
  intro state hbefore
  cases result with
  | ok value => exact ⟨rfl, hbefore⟩
  | error error => exact hcut state hbefore

theorem triple_modify {f : σ → σ} {After : σ → Prop}
    (hafter : ∀ state, Before state → After (f state)) :
    Triple Before (modify f : Stage ε σ Unit) (fun _ => After) Cut := hafter

theorem triple_bind {stage : Stage ε σ α} {next : α → Stage ε σ β} {Middle : α → σ → Prop}
    {After : β → σ → Prop} (hstage : Triple Before stage Middle Cut)
    (hnext : ∀ value, Triple (Middle value) (next value) After Cut) :
    Triple Before (stage >>= next) After Cut := by
  intro state hbefore
  have hmeets := hstage state hbefore
  rw [bind_run]
  cases hrun : stage.run state with
  | returned value middle =>
    rw [hrun] at hmeets
    exact hnext value middle hmeets
  | failed error state =>
    rw [hrun] at hmeets
    exact hmeets
  | panicked state =>
    rw [hrun] at hmeets
    exact hmeets
  | stopped state =>
    rw [hrun] at hmeets
    exact hmeets

theorem Triple.weaken {stage : Stage ε σ α} {Before' Cut' : σ → Prop} {After After' : α → σ → Prop}
    (htriple : Triple Before stage After Cut) (hbefore : ∀ state, Before' state → Before state)
    (hafter : ∀ value state, After value state → After' value state)
    (hcut : ∀ state, Cut state → Cut' state) : Triple Before' stage After' Cut' :=
  fun state hstate => (htriple state (hbefore state hstate)).weaken hafter hcut

/-- From related states two stages end in the same way. -/
def Twin (Before : σ → σ → Prop) (stage stage' : Stage ε σ α) (After : α → σ → σ → Prop)
    (Cut : σ → σ → Prop) : Prop :=
  ∀ state state', Before state state' →
    Exit.Agree After Cut (stage.run state) (stage'.run state')

section Twins

variable {Before Cut : σ → σ → Prop}

theorem twin_bind {stage stage' : Stage ε σ α} {next next' : α → Stage ε σ β}
    {Middle : α → σ → σ → Prop} {After : β → σ → σ → Prop}
    (hstage : Twin Before stage stage' Middle Cut)
    (hnext : ∀ value, Twin (Middle value) (next value) (next' value) After Cut) :
    Twin Before (stage >>= next) (stage' >>= next') After Cut := by
  intro state state' hbefore
  have hagree := hstage state state' hbefore
  rw [bind_run, bind_run]
  generalize stage.run state = exit at hagree ⊢
  generalize stage'.run state' = exit' at hagree ⊢
  cases hagree with
  | returned value middle middle' hmiddle => exact hnext value middle middle' hmiddle
  | failed error middle middle' hcut => exact .failed error middle middle' hcut
  | panicked middle middle' hcut => exact .panicked middle middle' hcut
  | stopped middle middle' hcut => exact .stopped middle middle' hcut

theorem twin_ofExcept (result : Except ε α) (hcut : ∀ state state', Before state state' →
    Cut state state') :
    Twin Before (ofExcept result) (ofExcept result)
      (fun value state state' => result = .ok value ∧ Before state state') Cut := by
  intro state state' hbefore
  cases result with
  | ok value => exact .returned value state state' ⟨rfl, hbefore⟩
  | error error => exact .failed error state state' (hcut state state' hbefore)

/-- One stage from one state. -/
theorem twin_same (stage : Stage ε σ α) (hcut : ∀ state, Cut state state) :
    Twin (· = ·) stage stage (fun _ => (· = ·)) Cut := by
  intro state state' hstate
  subst hstate
  exact .refl _ (fun _ _ => rfl) hcut

theorem Twin.weaken {stage stage' : Stage ε σ α} {Before' Cut' : σ → σ → Prop}
    {After After' : α → σ → σ → Prop} (htwin : Twin Before stage stage' After Cut)
    (hbefore : ∀ state state', Before' state state' → Before state state')
    (hafter : ∀ value state state', After value state state' → After' value state state')
    (hcut : ∀ state state', Cut state state' → Cut' state state') :
    Twin Before' stage stage' After' Cut' := fun state state' hstates =>
  (htwin state state' (hbefore state state' hstates)).weaken hafter hcut

end Twins

end Stage

end Tiberius.Staging
