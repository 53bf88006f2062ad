import Tiberius.Reading.Source

/-!
Futures polled over a source that grows. A future keeps a state of its own
between polls, and a poll either completes it or leaves it waiting. When every
poll does what driving a program from the source would do, and the state that
is kept stands for the program that is left, then a future polled until it
completes returns what the program returns on the symbols as a whole, however
they come in and however often the future has to wait.
-/

namespace Tiberius.Reading

inductive Polled (ε σ τ α : Type) where
  | ready (result : Except ε α) (source : σ)
  | pending (state : τ) (source : σ)

structure Future (ε σ τ α : Type) where
  start : τ
  poll : τ → σ → Polled ε σ τ α

variable {ε γ β σ τ α δ : Type}

/-- Poll a future, and again after each of the arrivals until it completes. What
has not arrived by then is left over. -/
def Future.pollAll (future : Future ε σ τ α) (grow : σ → δ → σ) :
    τ → σ → List δ → Polled ε σ τ α × List δ
  | state, source, [] => (future.poll state source, [])
  | state, source, arrival :: rest =>
    match future.poll state source with
    | .ready result source => (.ready result source, arrival :: rest)
    | .pending state source => future.pollAll grow state (grow source arrival) rest

/-- A poll answers as a drive ends, and the state it keeps while it waits stands
for the program that is left. -/
def Matches (StandsFor : τ → Program ε γ β α → Prop) (driven : Driven ε γ β σ α)
    (polled : Polled ε σ τ α) : Prop :=
  match driven with
  | .done value source => polled = .ready (.ok value) source
  | .failed error source => polled = .ready (.error error) source
  | .pending left source => ∃ state, polled = .pending state source ∧ StandsFor state left

def Follows (future : Future ε σ τ α) (poll : ℕ → σ → Poll ε β σ) (env : γ)
    (StandsFor : τ → Program ε γ β α → Prop) : Prop :=
  ∀ state p source, StandsFor state p →
    Matches StandsFor (p.drive poll env source) (future.poll state source)

/-- A source that shows its symbols and grows by arrivals behind them. It never
breaks, and it only makes a reader wait for symbols it does not have. -/
structure Grows (poll : ℕ → σ → Poll ε β σ) (view : σ → List β) (Keeps : σ → Prop)
    (grow : σ → δ → σ) (symbols : δ → List β) : Prop where
  shows : Shows poll view
  kept : ∀ count source, Keeps source → Keeps (poll count source).source
  served : ∀ count source error source', Keeps source → poll count source ≠ .broken error source'
  waits : ∀ {count source source'}, poll count source = .pending source' →
    (view source').length < count
  grown : ∀ {source} arrival, Keeps source →
    Keeps (grow source arrival) ∧ view (grow source arrival) = view source ++ symbols arrival

namespace Grows

open Program

variable {poll : ℕ → σ → Poll ε β σ} {view : σ → List β} {Keeps : σ → Prop}
  {grow : σ → δ → σ} {symbols : δ → List β}

/-- What a run over the symbols, shown and still to arrive, says about the
answer of a future. A run that stops short says nothing. -/
def Answers (view : σ → List β) (Keeps : σ → Prop) (symbols : δ → List β)
    (outcome : Outcome ε γ β α) (answer : Polled ε σ τ α × List δ) : Prop :=
  match outcome with
  | .done value rest => ∃ source, answer.1 = .ready (.ok value) source ∧ Keeps source ∧
      view source ++ answer.2.flatMap symbols = rest
  | .failed error rest => ∃ source, answer.1 = .ready (.error error) source ∧ Keeps source ∧
      view source ++ answer.2.flatMap symbols = rest
  | .short _ _ => True

theorem drive_keeps (hgrows : Grows poll view Keeps grow symbols) (p : Program ε γ β α) (env : γ)
    {source : σ} (hkeeps : Keeps source) : Keeps (p.drive poll env source).source :=
  p.drive_preserves hgrows.kept env hkeeps

variable {future : Future ε σ τ α} {env : γ} {StandsFor : τ → Program ε γ β α → Prop}
  {state : τ} {p : Program ε γ β α} {source : σ}

theorem pollAll_of_ready {result : Except ε α} {source' : σ}
    (hpoll : future.poll state source = .ready result source') (arrivals : List δ) :
    future.pollAll grow state source arrivals = (.ready result source', arrivals) := by
  cases arrivals with
  | nil => rw [Future.pollAll, hpoll]
  | cons arrival rest => rw [Future.pollAll, hpoll]

theorem pollAll_settled (hgrows : Grows poll view Keeps grow symbols)
    (hfollows : Follows future poll env StandsFor) (arrivals : List δ)
    (hstands : StandsFor state p) (hkeeps : Keeps source)
    (hdrive : ∀ left source', p.drive poll env source ≠ .pending left source') :
    Answers view Keeps symbols (p.run env (view source ++ arrivals.flatMap symbols))
      (future.pollAll grow state source arrivals) := by
  have hafter := hgrows.drive_keeps p env hkeeps
  have hpoll := hfollows state p source hstands
  cases hcase : p.drive poll env source with
  | done value source' =>
    rw [hcase] at hafter hpoll
    rw [hgrows.shows.run_of_drive_done hcase, pollAll_of_ready hpoll]
    exact ⟨source', rfl, hafter, rfl⟩
  | failed error source' =>
    rw [hcase] at hafter hpoll
    rw [hgrows.shows.run_of_drive_failed hgrows.kept hgrows.served hkeeps hcase,
      pollAll_of_ready hpoll]
    exact ⟨source', rfl, hafter, rfl⟩
  | pending left source' => exact absurd hcase (hdrive left source')

theorem pollAll_answers (hgrows : Grows poll view Keeps grow symbols)
    (hfollows : Follows future poll env StandsFor) (arrivals : List δ)
    (hstands : StandsFor state p) (hkeeps : Keeps source) :
    Answers view Keeps symbols (p.run env (view source ++ arrivals.flatMap symbols))
      (future.pollAll grow state source arrivals) := by
  induction arrivals generalizing state p source with
  | nil =>
    by_cases hdrive : ∃ left source', p.drive poll env source = .pending left source'
    · -- Nothing is left to arrive, so the symbols end in front of a read.
      obtain ⟨left, source', hdrive⟩ := hdrive
      obtain ⟨count, next, before, rfl, hpoll⟩ := drive_pending hdrive
      rw [(hgrows.shows.run_of_drive_pending hdrive).2, List.flatMap_nil, List.append_nil,
        run_read_of_lt next env (hgrows.waits hpoll)]
      trivial
    · exact hgrows.pollAll_settled hfollows [] hstands hkeeps
        fun left source' hpending => hdrive ⟨left, source', hpending⟩
  | cons arrival rest ih =>
    by_cases hdrive : ∃ left source', p.drive poll env source = .pending left source'
    · obtain ⟨left, source', hdrive⟩ := hdrive
      have hafter := hgrows.drive_keeps p env hkeeps
      have hwaits := hfollows state p source hstands
      rw [hdrive] at hafter hwaits
      obtain ⟨state', hpoll, hstands'⟩ := hwaits
      obtain ⟨hgrown, hview⟩ := hgrows.grown arrival hafter
      have hrest := ih hstands' hgrown
      rw [(hgrows.shows.run_of_drive_pending hdrive).2, Future.pollAll, hpoll, List.flatMap_cons]
      rw [hview, List.append_assoc] at hrest
      exact hrest
    · exact hgrows.pollAll_settled hfollows (arrival :: rest) hstands hkeeps
        fun left source' hpending => hdrive ⟨left, source', hpending⟩

end Grows

theorem Program.bind_assoc {ζ η : Type} (p : Program ε γ β α) (f : α → Program ε γ β ζ)
    (g : ζ → Program ε γ β η) : (p.bind f).bind g = p.bind fun value => (f value).bind g := by
  induction p with
  | ret value => rfl
  | fail error => rfl
  | ask next ih => exact congrArg ask (funext ih)
  | read count next ih => exact congrArg (read count) (funext ih)

end Tiberius.Reading
