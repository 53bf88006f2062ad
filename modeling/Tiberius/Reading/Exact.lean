import Mathlib.Data.List.Forall2
import Tiberius.Reading.Program

/-!
What a reading program accepts. A program reads a list exactly when its run ends
at the end of the list; every run that ends with a value reads exactly what it
uses. The exact readings of a compound program are those of its parts one behind
the other, in both directions, so they serve to show that an encoding is read
back and to find the form of what has been read.
-/

namespace Tiberius.Reading

namespace Program

variable {ε γ β α δ : Type}

/-- The program takes exactly these symbols to give the value. -/
def Reads (p : Program ε γ β α) (env : γ) (symbols : List β) (value : α) : Prop :=
  p.run env symbols = .done value []

theorem Reads.run_append {p : Program ε γ β α} {env : γ} {symbols : List β} {value : α}
    (hreads : p.Reads env symbols value) (rest : List β) :
    p.run env (symbols ++ rest) = .done value rest := by
  rw [Program.run_append, show p.run env symbols = _ from hreads]
  rfl

theorem Reads.unique {p : Program ε γ β α} {env : γ} {symbols : List β} {value other : α}
    (hreads : p.Reads env symbols value) (hother : p.Reads env symbols other) : value = other := by
  cases (show p.run env symbols = .done value [] from hreads).symm.trans hother
  rfl

theorem reads_of_run {p : Program ε γ β α} {env : γ} {symbols rest : List β} {value : α}
    (hrun : p.run env symbols = .done value rest) :
    ∃ used, symbols = used ++ rest ∧ p.Reads env used value := by
  obtain ⟨used, hused⟩ := p.run_rest_suffix env symbols
  rw [hrun] at hused
  refine ⟨used, hused, ?_⟩
  apply run_done_prefix
  rw [List.nil_append, ← show symbols = used ++ rest from hused, hrun]

@[simp] theorem ret_bind (value : α) (f : α → Program ε γ β δ) : (ret value).bind f = f value := rfl

@[simp] theorem reads_ret {env : γ} {symbols : List β} {value other : α} :
    (ret value : Program ε γ β α).Reads env symbols other ↔ symbols = [] ∧ other = value := by
  simp only [Reads, run, Outcome.done.injEq]
  exact ⟨fun h => ⟨h.2, h.1.symm⟩, fun h => ⟨h.2.symm, h.1⟩⟩

theorem ret_reads {env : γ} (value : α) : (ret value : Program ε γ β α).Reads env [] value :=
  reads_ret.mpr ⟨rfl, rfl⟩

@[simp] theorem reads_fail {env : γ} {symbols : List β} {error : ε} {value : α} :
    (fail error : Program ε γ β α).Reads env symbols value ↔ False := by
  simp only [Reads, run, reduceCtorEq]

@[simp] theorem reads_ask {env : γ} {symbols : List β} {next : γ → Program ε γ β α} {value : α} :
    (ask next).Reads env symbols value ↔ (next env).Reads env symbols value := Iff.rfl

/-- A read of a fixed number of symbols. -/
theorem reads_read {env : γ} {symbols : List β} {count : ℕ} {next : List β → Program ε γ β α}
    {value : α} : (read count next).Reads env symbols value ↔
      count ≤ symbols.length ∧
        (next (symbols.take count)).Reads env (symbols.drop count) value := by
  by_cases hcount : count ≤ symbols.length
  · simp only [Reads, run_read_of_le next env hcount, hcount, true_and]
  · simp only [Reads, run_read_of_lt next env (Nat.lt_of_not_le hcount), hcount, false_and,
      reduceCtorEq]

theorem reads_read_ret {env : γ} {symbols : List β} {count : ℕ} {f : List β → α} {value : α} :
    (read count fun taken => ret (f taken) : Program ε γ β α).Reads env symbols value ↔
      symbols.length = count ∧ value = f symbols := by
  rw [reads_read, reads_ret]
  constructor
  · rintro ⟨hcount, hdrop, rfl⟩
    rw [List.drop_eq_nil_iff] at hdrop
    exact ⟨Nat.le_antisymm hdrop hcount, by rw [List.take_of_length_le hdrop]⟩
  · rintro ⟨rfl, rfl⟩
    exact ⟨Nat.le_refl _, List.drop_length, by rw [List.take_length]⟩

/-- One program behind the other. -/
theorem reads_bind {p : Program ε γ β α} {f : α → Program ε γ β δ} {env : γ} {symbols : List β}
    {value : δ} : (p.bind f).Reads env symbols value ↔
      ∃ first second middle, symbols = first ++ second ∧ p.Reads env first middle ∧
        (f middle).Reads env second value := by
  constructor
  · intro hreads
    have hrun : (p.run env symbols).andThen f env = .done value [] :=
      (run_bind p f env symbols).symm.trans hreads
    cases hfirst : p.run env symbols with
    | done middle rest =>
      rw [hfirst] at hrun
      obtain ⟨used, rfl, hused⟩ := reads_of_run hfirst
      exact ⟨used, rest, middle, rfl, hused, hrun⟩
    | failed error rest =>
      rw [hfirst] at hrun
      cases hrun
    | short left rest =>
      rw [hfirst] at hrun
      cases hrun
  · rintro ⟨first, second, middle, rfl, hfirst, hsecond⟩
    unfold Reads
    rw [Program.run_bind, hfirst.run_append]
    exact hsecond

theorem Reads.bind {p : Program ε γ β α} {f : α → Program ε γ β δ} {env : γ}
    {first second : List β} {middle : α} {value : δ} (hfirst : p.Reads env first middle)
    (hsecond : (f middle).Reads env second value) :
    (p.bind f).Reads env (first ++ second) value :=
  reads_bind.mpr ⟨first, second, middle, rfl, hfirst, hsecond⟩

/-- A run goes on with the second program behind the symbols that the first takes. -/
theorem Reads.run_bind {p : Program ε γ β α} {env : γ} {first : List β} {middle : α}
    (hfirst : p.Reads env first middle) (f : α → Program ε γ β δ) (second : List β) :
    (p.bind f).run env (first ++ second) = (f middle).run env second := by
  rw [Program.run_bind, hfirst.run_append]
  rfl

/-- What is left for the second program once the first has taken its symbols. -/
theorem Reads.of_bind {p : Program ε γ β α} {f : α → Program ε γ β δ} {env : γ}
    {first second : List β} {middle : α} {value : δ}
    (hbind : (p.bind f).Reads env (first ++ second) value) (hfirst : p.Reads env first middle) :
    (f middle).Reads env second value := by
  unfold Reads at hbind
  rw [hfirst.run_bind] at hbind
  exact hbind

/-- A program behind one that has taken all the symbols. -/
theorem Reads.bind_last {p : Program ε γ β α} {f : α → Program ε γ β δ} {env : γ}
    {symbols : List β} {middle : α} {value : δ} (hfirst : p.Reads env symbols middle)
    (hlast : (f middle).Reads env [] value) : (p.bind f).Reads env symbols value :=
  reads_bind.mpr ⟨symbols, [], middle, (List.append_nil symbols).symm, hfirst, hlast⟩

/-- The same program over and over reads a list of pieces. -/
theorem reads_times {p : Program ε γ β α} {env : γ} (count : ℕ) {symbols : List β}
    {values : List α} : (p.times count).Reads env symbols values ↔
      values.length = count ∧
        ∃ pieces, symbols = pieces.flatten ∧ List.Forall₂ (p.Reads env) pieces values := by
  induction count generalizing symbols values with
  | zero =>
    rw [times, reads_ret]
    constructor
    · rintro ⟨rfl, rfl⟩
      exact ⟨rfl, [], rfl, .nil⟩
    · rintro ⟨hlength, pieces, rfl, hpieces⟩
      obtain rfl := List.length_eq_zero_iff.mp hlength
      cases hpieces
      exact ⟨rfl, rfl⟩
  | succ count ih =>
    simp only [times, reads_bind, reads_ret, ih]
    constructor
    · rintro ⟨first, rest, value, rfl, hfirst, second, third, values, rfl, ⟨rfl, pieces, rfl, hpieces⟩,
        rfl, rfl⟩
      refine ⟨rfl, first :: pieces, ?_, .cons hfirst hpieces⟩
      rw [List.append_nil, List.flatten_cons]
    · rintro ⟨hlength, pieces, rfl, hpieces⟩
      cases hpieces with
      | nil => cases hlength
      | @cons piece value pieces values hpiece hpieces =>
        refine ⟨piece, pieces.flatten, value, rfl, hpiece, pieces.flatten, [], values, ?_,
          ⟨Nat.succ.inj hlength, pieces, rfl, hpieces⟩, rfl, rfl⟩
        exact (List.append_nil _).symm

end Program

end Tiberius.Reading
