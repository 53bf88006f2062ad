import Mathlib.Data.Seq.Basic
import Tiberius.Reading.Polling

/-!
Sources that deliver a sequence of symbols, which may be endless, in portions of
their own choosing. A request is answered by some of the next symbols, by none
where the sequence ends, or by a wait. What a reader makes of such a source is
compared with a loop that takes one symbol at a time from the sequence.
-/

namespace Tiberius.Reading

open Stream' (Seq)

variable {ε β σ τ α : Type}

/-- A source hands over the sequence ahead of it, and no more at once than it was
asked for. -/
structure Delivers (poll : ℕ → σ → Poll ε β σ) (ahead : σ → Seq β) : Prop where
  ready : ∀ {count : ℕ} {source source' : σ} {symbols : List β},
    poll count source = .ready symbols source' →
      ahead source = (Seq.ofList symbols).append (ahead source') ∧ symbols.length ≤ count
  ended : ∀ {count : ℕ} {source source' : σ}, 0 < count →
    poll count source = .ready [] source' → ahead source = .nil
  pending : ∀ {count : ℕ} {source source' : σ},
    poll count source = .pending source' → ahead source' = ahead source
  served : ∀ (count : ℕ) (source : σ) (error : ε) (source' : σ),
    poll count source ≠ .broken error source'

/-- A request has kept its reader waiting. -/
def Waits (poll : ℕ → σ → Poll ε β σ) (source' source : σ) : Prop :=
  ∃ count, poll count source = .pending source'

/-- A future that is polled until it completes. -/
inductive Future.Completes (future : Future ε σ τ α) : τ → σ → Except ε α → σ → Prop where
  | ready {state : τ} {source last : σ} {result : Except ε α} :
      future.poll state source = .ready result last →
        Future.Completes future state source result last
  | pending {state state' : τ} {source source' last : σ} {result : Except ε α} :
      future.poll state source = .pending state' source' →
        Future.Completes future state' source' result last →
          Future.Completes future state source result last

def Future.Returns (future : Future ε σ τ α) (source : σ) (result : Except ε α) (last : σ) :
    Prop :=
  future.Completes future.start source result last

/-- How a future ends that keeps something while it waits. -/
theorem Future.Completes.ends_of_keeps {future : Future ε σ τ α} (Keeps : τ → σ → Prop)
    (Ends : Except ε α → σ → Prop)
    (hpending : ∀ state source state' source', Keeps state source →
      future.poll state source = .pending state' source' → Keeps state' source')
    (hready : ∀ state source result last, Keeps state source →
      future.poll state source = .ready result last → Ends result last)
    {state : τ} {source last : σ} {result : Except ε α}
    (hcompletes : future.Completes state source result last) (hkeeps : Keeps state source) :
    Ends result last := by
  induction hcompletes with
  | ready hpoll => exact hready _ _ _ _ hkeeps hpoll
  | pending hpoll _ ih => exact ih (hpending _ _ _ _ hkeeps hpoll)

/-- The loop of single reads. -/
def readSingly (short : ε) : ℕ → List β → Seq β → Except ε Unit × List β × Seq β
  | 0, read, input => (.ok (), read, input)
  | count + 1, read, input =>
    match input.destruct with
    | none => (.error short, read, input)
    | some (symbol, rest) => readSingly short count (read ++ [symbol]) rest

theorem take_ofList_append (front : List β) (rest : Seq β) :
    ((Seq.ofList front).append rest).take front.length = front := by
  induction front with
  | nil => exact Seq.take_zero
  | cons symbol front ih =>
    rw [Seq.ofList_cons, Seq.cons_append, List.length_cons, Seq.take_succ_cons, ih]

theorem take_ofList (symbols : List β) (count : ℕ) :
    (Seq.ofList symbols).take count = symbols.take count := by
  induction symbols generalizing count with
  | nil => rw [Seq.ofList_nil, Seq.take_nil, List.take_nil]
  | cons symbol symbols ih =>
    cases count with
    | zero => rfl
    | succ count => rw [Seq.ofList_cons, Seq.take_succ_cons, ih, List.take_succ_cons]

theorem readSingly_append (short : ε) (front : List β) (count : ℕ) (read : List β)
    (rest : Seq β) :
    readSingly short (front.length + count) read ((Seq.ofList front).append rest) =
      readSingly short count (read ++ front) rest := by
  induction front generalizing read with
  | nil => rw [Seq.ofList_nil, Seq.nil_append, List.length_nil, Nat.zero_add, List.append_nil]
  | cons symbol front ih =>
    rw [Seq.ofList_cons, Seq.cons_append, List.length_cons, Nat.add_right_comm, readSingly,
      Seq.destruct_cons]
    simp only
    rw [ih, List.append_assoc]
    rfl

theorem readSingly_nil (short : ε) {count : ℕ} (hcount : 0 < count) (read : List β) :
    readSingly short count read .nil = (.error short, read, .nil) := by
  obtain ⟨more, rfl⟩ : ∃ more, count = more + 1 := ⟨count - 1, by omega⟩
  rw [readSingly, Seq.destruct_nil]

/-- The loop has read as many symbols as it was to read, or all there were. -/
theorem readSingly_eq {short : ε} {count : ℕ} {read bytes : List β} {input rest : Seq β}
    {result : Except ε Unit} (hread : (result, bytes, rest) = readSingly short count read input) :
    ∃ value, bytes = read ++ value ∧ input = (Seq.ofList value).append rest ∧
      (result = .ok () ∧ value.length = count ∨
        result = .error short ∧ value.length < count ∧ rest = .nil) := by
  induction count generalizing read input with
  | zero =>
    simp only [readSingly, Prod.mk.injEq] at hread
    obtain ⟨rfl, rfl, rfl⟩ := hread
    exact ⟨[], (List.append_nil _).symm, (Seq.nil_append _).symm, .inl ⟨rfl, rfl⟩⟩
  | succ count ih =>
    rw [readSingly] at hread
    cases hinput : input.destruct with
    | none =>
      simp only [hinput, Prod.mk.injEq] at hread
      obtain ⟨rfl, rfl, rfl⟩ := hread
      have hnil := Seq.destruct_eq_none hinput
      exact ⟨[], (List.append_nil _).symm, (Seq.nil_append _).symm,
        .inr ⟨rfl, Nat.succ_pos count, hnil⟩⟩
    | some next =>
      obtain ⟨symbol, tail⟩ := next
      simp only [hinput] at hread
      obtain ⟨value, hbytes, htail, hends⟩ := ih hread
      refine ⟨symbol :: value, ?_, ?_, ?_⟩
      · rw [hbytes, List.append_assoc]
        rfl
      · rw [Seq.destruct_eq_cons hinput, htail, Seq.ofList_cons, Seq.cons_append]
      · rw [List.length_cons]
        cases hends with
        | inl hdone => exact .inl ⟨hdone.1, congrArg (· + 1) hdone.2⟩
        | inr hshort => exact .inr ⟨hshort.1, Nat.succ_lt_succ hshort.2.1, hshort.2.2⟩

theorem readSingly_ok {short : ε} {count : ℕ} {read bytes : List β} {input rest : Seq β}
    (hread : (.ok (), bytes, rest) = readSingly short count read input) :
    ∃ value, value.length = count ∧ bytes = read ++ value ∧
      input = (Seq.ofList value).append rest := by
  obtain ⟨value, hbytes, hinput, hends⟩ := readSingly_eq hread
  cases hends with
  | inl hdone => exact ⟨value, hdone.2, hbytes, hinput⟩
  | inr hshort => cases hshort.1

end Tiberius.Reading
