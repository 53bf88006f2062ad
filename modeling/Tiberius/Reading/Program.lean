import Mathlib.Data.List.Basic

/-!
Reading programs over a stream of symbols. A program asks for a fixed number of
symbols at a time, may consult an environment that does not change while it
runs, and ends with a value or an error. Running it on a contiguous list either
ends inside that list or stops short at a read the list cannot serve; what is
left then is again a program, so a run can be taken up where it stopped.
-/

namespace Tiberius.Reading

/-- A reader of symbols of type `β` in an environment of type `γ`. -/
inductive Program (ε γ β α : Type) where
  | ret (value : α)
  | fail (error : ε)
  | ask (next : γ → Program ε γ β α)
  | read (count : ℕ) (next : List β → Program ε γ β α)

/-- How a run on a list ends. `short` keeps the program that is left, whose
first read asks for more symbols than the list still has. -/
inductive Outcome (ε γ β α : Type) where
  | done (value : α) (rest : List β)
  | failed (error : ε) (rest : List β)
  | short (left : Program ε γ β α) (rest : List β)

namespace Program

variable {ε γ β α δ : Type}

def bind : Program ε γ β α → (α → Program ε γ β δ) → Program ε γ β δ
  | ret value, f => f value
  | fail error, _ => fail error
  | ask next, f => ask fun env => (next env).bind f
  | read count next, f => read count fun taken => (next taken).bind f

instance : Monad (Program ε γ β) where
  pure := ret
  bind := bind

/-- A step that cannot read: a value or an error computed already. -/
def ofExcept : Except ε α → Program ε γ β α
  | .ok value => ret value
  | .error error => fail error

/-- The same program `count` times over, its values in order. -/
def times (p : Program ε γ β α) : ℕ → Program ε γ β (List α)
  | 0 => ret []
  | count + 1 => p.bind fun value => (p.times count).bind fun values => ret (value :: values)

/-- The run of a program on a contiguous list. -/
def run : Program ε γ β α → γ → List β → Outcome ε γ β α
  | ret value, _, symbols => .done value symbols
  | fail error, _, symbols => .failed error symbols
  | ask next, env, symbols => (next env).run env symbols
  | read count next, env, symbols =>
    if count ≤ symbols.length then (next (symbols.take count)).run env (symbols.drop count)
    else .short (read count next) symbols

@[simp] theorem bind_eq (p : Program ε γ β α) (f : α → Program ε γ β δ) : p >>= f = p.bind f := rfl

@[simp] theorem pure_eq (value : α) : (pure value : Program ε γ β α) = ret value := rfl

theorem run_read_of_le {count : ℕ} {symbols : List β} (next : List β → Program ε γ β α) (env : γ)
    (hcount : count ≤ symbols.length) :
    (read count next).run env symbols =
      (next (symbols.take count)).run env (symbols.drop count) := by
  simp only [run, hcount, if_true]

theorem run_read_of_lt {count : ℕ} {symbols : List β} (next : List β → Program ε γ β α) (env : γ)
    (hcount : symbols.length < count) :
    (read count next).run env symbols = .short (read count next) symbols := by
  simp only [run, Nat.not_le.mpr hcount, if_false]

end Program

namespace Outcome

variable {ε γ β α δ : Type}

/-- What follows a run: the next program goes on where the first one ended. -/
def andThen (f : α → Program ε γ β δ) (env : γ) : Outcome ε γ β α → Outcome ε γ β δ
  | done value rest => (f value).run env rest
  | failed error rest => .failed error rest
  | short left rest => .short (left.bind f) rest

/-- What becomes of a run when more symbols arrive behind the list. -/
def extend (env : γ) (more : List β) : Outcome ε γ β α → Outcome ε γ β α
  | done value rest => .done value (rest ++ more)
  | failed error rest => .failed error (rest ++ more)
  | short left rest => left.run env (rest ++ more)

def rest : Outcome ε γ β α → List β
  | done _ rest => rest
  | failed _ rest => rest
  | short _ rest => rest

end Outcome

namespace Program

variable {ε γ β α δ : Type}

theorem run_bind (p : Program ε γ β α) (f : α → Program ε γ β δ) (env : γ) (symbols : List β) :
    (p.bind f).run env symbols = (p.run env symbols).andThen f env := by
  induction p generalizing symbols with
  | ret value => rfl
  | fail error => rfl
  | ask next ih => exact ih env symbols
  | read count next ih =>
    by_cases hcount : count ≤ symbols.length
    · rw [run_read_of_le next env hcount]
      exact (run_read_of_le _ env hcount).trans (ih _ _)
    · rw [run_read_of_lt next env (by omega)]
      exact run_read_of_lt _ env (by omega)

/-- Symbols behind the ones a run has used change nothing but what is left. -/
theorem run_append (p : Program ε γ β α) (env : γ) (symbols more : List β) :
    p.run env (symbols ++ more) = (p.run env symbols).extend env more := by
  induction p generalizing symbols with
  | ret value => rfl
  | fail error => rfl
  | ask next ih => exact ih env symbols
  | read count next ih =>
    by_cases hcount : count ≤ symbols.length
    · rw [run_read_of_le next env hcount, run_read_of_le next env
        (by simp only [List.length_append]; omega)]
      rw [List.take_append_of_le_length hcount, List.drop_append_of_le_length hcount]
      exact ih _ _
    · have hshort := run_read_of_lt next env (Nat.lt_of_not_le hcount)
      rw [hshort]
      rfl

/-- A run only ever drops symbols from the front. -/
theorem run_rest_suffix (p : Program ε γ β α) (env : γ) (symbols : List β) :
    ∃ used, symbols = used ++ (p.run env symbols).rest := by
  induction p generalizing symbols with
  | ret value => exact ⟨[], rfl⟩
  | fail error => exact ⟨[], rfl⟩
  | ask next ih => exact ih env symbols
  | read count next ih =>
    by_cases hcount : count ≤ symbols.length
    · rw [run_read_of_le next env hcount]
      obtain ⟨used, hused⟩ := ih (symbols.take count) (symbols.drop count)
      refine ⟨symbols.take count ++ used, ?_⟩
      rw [List.append_assoc, ← hused, List.take_append_drop]
    · rw [run_read_of_lt next env (by omega)]
      exact ⟨[], rfl⟩

/-- A run stops short only at a read that asks for more than is left. -/
theorem run_short_shape {p left : Program ε γ β α} {env : γ} {symbols rest : List β}
    (hrun : p.run env symbols = .short left rest) :
    ∃ count next, left = read count next ∧ rest.length < count := by
  induction p generalizing symbols with
  | ret value => simp only [run, reduceCtorEq] at hrun
  | fail error => simp only [run, reduceCtorEq] at hrun
  | ask next ih => exact ih env hrun
  | read count next ih =>
    by_cases hcount : count ≤ symbols.length
    · rw [run_read_of_le next env hcount] at hrun
      exact ih _ hrun
    · rw [run_read_of_lt next env (by omega)] at hrun
      simp only [Outcome.short.injEq] at hrun
      obtain ⟨hleft, hrest⟩ := hrun
      exact ⟨count, next, hleft.symm, by rw [← hrest]; omega⟩

/-- A run that stops short of a list and ends behind it has used all of it. -/
theorem run_append_of_short {p left : Program ε γ β α} {env : γ} {symbols rest : List β}
    (hrun : p.run env symbols = .short left rest) (more : List β) :
    (∃ left' rest', p.run env (symbols ++ more) = .short left' rest') ∨
      (p.run env (symbols ++ more)).rest.length < more.length := by
  obtain ⟨count, next, rfl, hlength⟩ := run_short_shape hrun
  rw [run_append, hrun]
  simp only [Outcome.extend]
  by_cases hcount : count ≤ (rest ++ more).length
  · refine Or.inr ?_
    rw [run_read_of_le next env hcount]
    obtain ⟨used, hused⟩ := (next ((rest ++ more).take count)).run_rest_suffix env
      ((rest ++ more).drop count)
    have htotal := congrArg List.length hused
    rw [List.length_drop, List.length_append, List.length_append] at htotal
    rw [List.length_append] at hcount
    omega
  · exact Or.inl ⟨_, _, run_read_of_lt next env (by omega)⟩

theorem run_done_prefix {p : Program ε γ β α} {env : γ} {symbols more rest : List β} {value : α}
    (hrun : p.run env (symbols ++ more) = .done value (rest ++ more)) :
    p.run env symbols = .done value rest := by
  cases hprefix : p.run env symbols with
  | done other left =>
    rw [run_append, hprefix, Outcome.extend, Outcome.done.injEq] at hrun
    obtain ⟨rfl, hrest⟩ := hrun
    rw [List.append_cancel_right hrest]
  | failed error left =>
    rw [run_append, hprefix, Outcome.extend] at hrun
    cases hrun
  | short left other =>
    rcases run_append_of_short hprefix more with ⟨left', rest', hshort⟩ | hlength
    · rw [hrun] at hshort
      cases hshort
    · rw [hrun, Outcome.rest, List.length_append] at hlength
      omega

theorem run_failed_prefix {p : Program ε γ β α} {env : γ} {symbols more rest : List β} {error : ε}
    (hrun : p.run env (symbols ++ more) = .failed error (rest ++ more)) :
    p.run env symbols = .failed error rest := by
  cases hprefix : p.run env symbols with
  | done value left =>
    rw [run_append, hprefix, Outcome.extend] at hrun
    cases hrun
  | failed other left =>
    rw [run_append, hprefix, Outcome.extend, Outcome.failed.injEq] at hrun
    obtain ⟨rfl, hrest⟩ := hrun
    rw [List.append_cancel_right hrest]
  | short left other =>
    rcases run_append_of_short hprefix more with ⟨left', rest', hshort⟩ | hlength
    · rw [hrun] at hshort
      cases hshort
    · rw [hrun, Outcome.rest, List.length_append] at hlength
      omega

end Program

end Tiberius.Reading
