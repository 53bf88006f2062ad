import Mathlib.Data.List.Basic

/-!
Computations that append to an output. One of them yields the symbols that it
has appended and a result; what has been appended before an error stays where
it is, which is what a caller that holds the output has to reckon with.
-/

namespace Tiberius.Writing

/-- The symbols appended to an output, and how the computation ended. -/
structure Written (ε β α : Type) where
  output : List β
  result : Except ε α

namespace Written

variable {ε β α δ : Type}

/-- A computation that has appended symbols and come to its end. -/
def done (output : List β) (value : α) : Written ε β α where
  output := output
  result := .ok value

def fail (error : ε) : Written ε β α where
  output := []
  result := .error error

/-- Append symbols. -/
def put (symbols : List β) : Written ε β Unit := done symbols ()

/-- Symbols that stand in front of what a computation appends. -/
def after (first : List β) (written : Written ε β α) : Written ε β α where
  output := first ++ written.output
  result := written.result

def bind (written : Written ε β α) (f : α → Written ε β δ) : Written ε β δ :=
  match written.result with
  | .ok value => (f value).after written.output
  | .error error => { output := written.output, result := .error error }

instance : Monad (Written ε β) where
  pure value := done [] value
  bind := bind

/-- A value computed without writing. -/
def ofExcept : Except ε α → Written ε β α
  | .ok value => done [] value
  | .error error => fail error

/-- A computation whose symbols go to a buffer of their own. -/
def aside (written : Written ε β α) : Written ε β (List β) :=
  match written.result with
  | .ok _ => done [] written.output
  | .error error => fail error

@[simp] theorem pure_eq (value : α) : (pure value : Written ε β α) = done [] value := rfl

@[simp] theorem bind_eq (written : Written ε β α) (f : α → Written ε β δ) :
    written >>= f = written.bind f := rfl

@[simp] theorem done_bind (output : List β) (value : α) (f : α → Written ε β δ) :
    (done output value).bind f = (f value).after output := rfl

@[simp] theorem put_bind (symbols : List β) (f : Unit → Written ε β δ) :
    (put symbols).bind f = (f ()).after symbols := rfl

@[simp] theorem after_done (first output : List β) (value : α) :
    (done output value : Written ε β α).after first = done (first ++ output) value := rfl

@[simp] theorem after_nil (written : Written ε β α) : written.after [] = written := rfl

@[simp] theorem after_after (first second : List β) (written : Written ε β α) :
    (written.after second).after first = written.after (first ++ second) := by
  simp only [after, List.append_assoc]

@[simp] theorem after_bind (first : List β) (written : Written ε β α) (f : α → Written ε β δ) :
    (written.after first).bind f = (written.bind f).after first := by
  obtain ⟨output, result⟩ := written
  cases result with
  | ok value => exact (after_after first output (f value)).symm
  | error error => rfl

theorem bind_assoc {ζ : Type} (written : Written ε β α) (f : α → Written ε β δ)
    (g : δ → Written ε β ζ) :
    (written.bind f).bind g = written.bind fun value => (f value).bind g := by
  obtain ⟨output, result⟩ := written
  cases result with
  | ok value => exact after_bind output (f value) g
  | error error => rfl

theorem headed_done {written : Written ε β α} {output : List β} {value : α} (header : List β)
    (hwritten : written = done output value) :
    (do put header; written) = done (header ++ output) value := by
  rw [hwritten]
  rfl

/-- A header that depends on a value computed before it. -/
theorem sized_done {sized : Written ε β δ} {size : δ} {written : Written ε β α} {output : List β}
    {value : α} (header : δ → List β) (hsized : sized = done [] size)
    (hwritten : written = done output value) :
    (do let size ← sized; put (header size); written) = done (header size ++ output) value := by
  rw [hsized, hwritten]
  rfl

theorem done_inj {output other : List β} {value back : α} :
    (done output value : Written ε β α) = done other back ↔ output = other ∧ value = back := by
  simp only [done, Written.mk.injEq, Except.ok.injEq]

theorem fail_ne_done {error : ε} {output : List β} {value : α} :
    (fail error : Written ε β α) ≠ done output value := by
  intro heq
  cases congrArg result heq

/-- A computation that comes to its end has gone through both of its parts. -/
theorem bind_eq_done {written : Written ε β α} {f : α → Written ε β δ} {output : List β}
    {value : δ} (hbind : written.bind f = done output value) :
    ∃ first second middle, output = first ++ second ∧ written = done first middle ∧
      f middle = done second value := by
  obtain ⟨first, result⟩ := written
  cases result with
  | error error => cases congrArg result hbind
  | ok middle =>
    have hresult : (f middle).result = .ok value := congrArg result hbind
    have houtput : first ++ (f middle).output = output := congrArg Written.output hbind
    refine ⟨first, (f middle).output, middle, houtput.symm, rfl, ?_⟩
    rw [done, ← hresult]

theorem result_bind_of_error {written : Written ε β α} {error : ε}
    (hresult : written.result = .error error) (f : α → Written ε β δ) :
    (written.bind f).result = .error error := by
  unfold bind
  rw [hresult]

/-- A buffer of its own holds what a computation that has come to its end has written. -/
theorem aside_eq_done {written : Written ε β α} {output symbols : List β}
    (haside : written.aside = done output symbols) :
    output = [] ∧ ∃ value, written = done symbols value := by
  obtain ⟨first, result⟩ := written
  cases result with
  | error error => cases congrArg result haside
  | ok value =>
    obtain ⟨rfl, rfl⟩ := done_inj.mp haside
    exact ⟨rfl, value, rfl⟩

theorem put_eq (symbols : List β) : (put symbols : Written ε β Unit) = done symbols () := rfl

end Written

end Tiberius.Writing
