import Tiberius.Reading.Program

/-!
Sources that serve symbols on demand. A source answers a request for a number
of symbols with exactly that many, with an error, or by keeping its reader
waiting. A relation between sources and lists says which symbols a source is
known to hold; as long as every request within the held symbols is served from
their front, driving a program from the source agrees with its run on the list.
-/

namespace Tiberius.Reading

inductive Poll (ε β σ : Type) where
  | ready (symbols : List β) (source : σ)
  | pending (source : σ)
  | broken (error : ε) (source : σ)

/-- How driving a program from a source ends. A program left waiting is kept. -/
inductive Driven (ε γ β σ α : Type) where
  | done (value : α) (source : σ)
  | failed (error : ε) (source : σ)
  | pending (left : Program ε γ β α) (source : σ)

variable {ε γ β σ α : Type}

def Poll.source : Poll ε β σ → σ
  | ready _ source => source
  | pending source => source
  | broken _ source => source

def Driven.source : Driven ε γ β σ α → σ
  | done _ source => source
  | failed _ source => source
  | pending _ source => source

namespace Program

def drive (poll : ℕ → σ → Poll ε β σ) : Program ε γ β α → γ → σ → Driven ε γ β σ α
  | ret value, _, source => .done value source
  | fail error, _, source => .failed error source
  | ask next, env, source => (next env).drive poll env source
  | read count next, env, source =>
    match poll count source with
    | .ready symbols source => (next symbols).drive poll env source
    | .pending source => .pending (read count next) source
    | .broken error source => .failed error source

end Program

/-- Requests within the held symbols are served from their front. -/
structure Serves (poll : ℕ → σ → Poll ε β σ) (Holds : σ → List β → Prop) : Prop where
  serve : ∀ {source : σ} {symbols : List β} {count : ℕ}, Holds source symbols →
    count ≤ symbols.length → ∃ source', poll count source = .ready (symbols.take count) source' ∧
      Holds source' (symbols.drop count)

namespace Serves

open Program

variable {poll : ℕ → σ → Poll ε β σ} {Holds : σ → List β → Prop}

theorem drive_done (hserves : Serves poll Holds) {p : Program ε γ β α} {env : γ} {source : σ}
    {symbols rest : List β} {value : α} (hholds : Holds source symbols)
    (hrun : p.run env symbols = .done value rest) :
    ∃ source', p.drive poll env source = .done value source' ∧ Holds source' rest := by
  induction p generalizing source symbols with
  | ret v =>
    simp only [run, Outcome.done.injEq] at hrun
    obtain ⟨rfl, rfl⟩ := hrun
    exact ⟨source, rfl, hholds⟩
  | fail error => simp only [run, reduceCtorEq] at hrun
  | ask next ih => exact ih env hholds hrun
  | read count next ih =>
    by_cases hcount : count ≤ symbols.length
    · rw [run_read_of_le next env hcount] at hrun
      obtain ⟨source₁, hpoll, hholds₁⟩ := hserves.serve hholds hcount
      simp only [drive, hpoll]
      exact ih _ hholds₁ hrun
    · rw [run_read_of_lt next env (by omega)] at hrun
      simp only [reduceCtorEq] at hrun

theorem drive_failed (hserves : Serves poll Holds) {p : Program ε γ β α} {env : γ} {source : σ}
    {symbols rest : List β} {error : ε} (hholds : Holds source symbols)
    (hrun : p.run env symbols = .failed error rest) :
    ∃ source', p.drive poll env source = .failed error source' ∧ Holds source' rest := by
  induction p generalizing source symbols with
  | ret v => simp only [run, reduceCtorEq] at hrun
  | fail e =>
    simp only [run, Outcome.failed.injEq] at hrun
    obtain ⟨rfl, rfl⟩ := hrun
    exact ⟨source, rfl, hholds⟩
  | ask next ih => exact ih env hholds hrun
  | read count next ih =>
    by_cases hcount : count ≤ symbols.length
    · rw [run_read_of_le next env hcount] at hrun
      obtain ⟨source₁, hpoll, hholds₁⟩ := hserves.serve hholds hcount
      simp only [drive, hpoll]
      exact ih _ hholds₁ hrun
    · rw [run_read_of_lt next env (by omega)] at hrun
      simp only [reduceCtorEq] at hrun

/-- When the held symbols run out, the source stands at the read that is left. -/
theorem drive_short (hserves : Serves poll Holds) {p left : Program ε γ β α} {env : γ}
    {source : σ} {symbols rest : List β} (hholds : Holds source symbols)
    (hrun : p.run env symbols = .short left rest) :
    ∃ source', p.drive poll env source = left.drive poll env source' ∧ Holds source' rest := by
  induction p generalizing source symbols with
  | ret v => simp only [run, reduceCtorEq] at hrun
  | fail e => simp only [run, reduceCtorEq] at hrun
  | ask next ih => exact ih env hholds hrun
  | read count next ih =>
    by_cases hcount : count ≤ symbols.length
    · rw [run_read_of_le next env hcount] at hrun
      obtain ⟨source₁, hpoll, hholds₁⟩ := hserves.serve hholds hcount
      obtain ⟨source₂, hdrive, hholds₂⟩ := ih _ hholds₁ hrun
      exact ⟨source₂, by simp only [drive, hpoll, hdrive], hholds₂⟩
    · rw [run_read_of_lt next env (by omega)] at hrun
      simp only [Outcome.short.injEq] at hrun
      obtain ⟨rfl, rfl⟩ := hrun
      exact ⟨source, rfl, hholds⟩

theorem keeping (hserves : Serves poll Holds) {Keeps : σ → Prop}
    (hpoll : ∀ count source, Keeps source → Keeps (poll count source).source) :
    Serves poll fun source symbols => Holds source symbols ∧ Keeps source where
  serve := by
    intro source symbols count hholds hcount
    obtain ⟨source', hready, hnext⟩ := hserves.serve hholds.1 hcount
    have hkeeps := hpoll count source hholds.2
    rw [hready] at hkeeps
    exact ⟨source', hready, hnext, hkeeps⟩

end Serves

/-- A source shows the symbols that it has: an answer takes them from the front,
and one that keeps the reader waiting takes none. -/
structure Shows (poll : ℕ → σ → Poll ε β σ) (view : σ → List β) : Prop where
  ready : ∀ {count : ℕ} {source source' : σ} {symbols : List β},
    poll count source = .ready symbols source' →
      view source = symbols ++ view source' ∧ symbols.length = count
  pending : ∀ {count : ℕ} {source source' : σ},
    poll count source = .pending source' → view source' = view source

namespace Shows

open Program

variable {poll : ℕ → σ → Poll ε β σ} {view : σ → List β}

theorem run_read_ready (hshows : Shows poll view) {count : ℕ} {source source' : σ}
    {symbols : List β} (next : List β → Program ε γ β α) (env : γ) (more : List β)
    (hpoll : poll count source = .ready symbols source') :
    (read count next).run env (view source ++ more) =
      (next symbols).run env (view source' ++ more) := by
  obtain ⟨hview, hlength⟩ := hshows.ready hpoll
  have hcount : count ≤ (view source ++ more).length := by
    rw [hview, List.length_append, List.length_append]
    omega
  rw [run_read_of_le next env hcount, hview, List.append_assoc, List.take_left' hlength,
    List.drop_left' hlength]

/-- A value comes from the symbols that were shown, whatever follows them. -/
theorem run_of_drive_done (hshows : Shows poll view) {p : Program ε γ β α} {env : γ}
    {source source' : σ} {value : α} (hdrive : p.drive poll env source = .done value source')
    (more : List β) : p.run env (view source ++ more) = .done value (view source' ++ more) := by
  induction p generalizing source with
  | ret v =>
    simp only [drive, Driven.done.injEq] at hdrive
    obtain ⟨rfl, rfl⟩ := hdrive
    rfl
  | fail error => simp only [drive, reduceCtorEq] at hdrive
  | ask next ih => exact ih env hdrive
  | read count next ih =>
    rw [drive] at hdrive
    cases hpoll : poll count source with
    | ready symbols source₁ =>
      simp only [hpoll] at hdrive
      rw [hshows.run_read_ready next env more hpoll]
      exact ih symbols hdrive
    | pending source₁ => simp only [hpoll, reduceCtorEq] at hdrive
    | broken error source₁ => simp only [hpoll, reduceCtorEq] at hdrive

/-- A program left waiting goes on as the whole would have gone on. -/
theorem run_of_drive_pending (hshows : Shows poll view) {p left : Program ε γ β α} {env : γ}
    {source source' : σ} (hdrive : p.drive poll env source = .pending left source') :
    (∃ used, view source = used ++ view source') ∧
      ∀ more, p.run env (view source ++ more) = left.run env (view source' ++ more) := by
  induction p generalizing source with
  | ret v => simp only [drive, reduceCtorEq] at hdrive
  | fail error => simp only [drive, reduceCtorEq] at hdrive
  | ask next ih => exact ih env hdrive
  | read count next ih =>
    rw [drive] at hdrive
    cases hpoll : poll count source with
    | ready symbols source₁ =>
      simp only [hpoll] at hdrive
      obtain ⟨⟨used, hused⟩, hrun⟩ := ih symbols hdrive
      refine ⟨⟨symbols ++ used, ?_⟩, fun more => ?_⟩
      · rw [(hshows.ready hpoll).1, hused, List.append_assoc]
      · rw [hshows.run_read_ready next env more hpoll]
        exact hrun more
    | pending source₁ =>
      simp only [hpoll, Driven.pending.injEq] at hdrive
      obtain ⟨rfl, rfl⟩ := hdrive
      rw [hshows.pending hpoll]
      exact ⟨⟨[], rfl⟩, fun more => rfl⟩
    | broken error source₁ => simp only [hpoll, reduceCtorEq] at hdrive

/-- An error is that of the program on the symbols shown, unless a request broke. -/
theorem run_of_drive_failed (hshows : Shows poll view) {Keeps : σ → Prop}
    (hkeeps : ∀ count source, Keeps source → Keeps (poll count source).source)
    (hserved : ∀ count source error source', Keeps source →
      poll count source ≠ .broken error source')
    {p : Program ε γ β α} {env : γ} {source source' : σ} {error : ε} (hsource : Keeps source)
    (hdrive : p.drive poll env source = .failed error source') (more : List β) :
    p.run env (view source ++ more) = .failed error (view source' ++ more) := by
  induction p generalizing source with
  | ret v => simp only [drive, reduceCtorEq] at hdrive
  | fail e =>
    simp only [drive, Driven.failed.injEq] at hdrive
    obtain ⟨rfl, rfl⟩ := hdrive
    rfl
  | ask next ih => exact ih env hsource hdrive
  | read count next ih =>
    rw [drive] at hdrive
    have hnext := hkeeps count source hsource
    cases hpoll : poll count source with
    | ready symbols source₁ =>
      simp only [hpoll] at hdrive hnext
      rw [hshows.run_read_ready next env more hpoll]
      exact ih symbols hnext hdrive
    | pending source₁ => simp only [hpoll, reduceCtorEq] at hdrive
    | broken e source₁ => exact absurd hpoll (hserved count source e source₁ hsource)

end Shows

theorem Program.drive_pending {poll : ℕ → σ → Poll ε β σ} {p left : Program ε γ β α} {env : γ}
    {source source' : σ} (hdrive : p.drive poll env source = .pending left source') :
    ∃ count next before, left = .read count next ∧ poll count before = .pending source' := by
  induction p generalizing source with
  | ret value => simp only [drive, reduceCtorEq] at hdrive
  | fail error => simp only [drive, reduceCtorEq] at hdrive
  | ask next ih => exact ih env hdrive
  | read count next ih =>
    rw [drive] at hdrive
    cases hpoll : poll count source with
    | ready symbols source₁ =>
      simp only [hpoll] at hdrive
      exact ih symbols hdrive
    | pending source₁ =>
      simp only [hpoll, Driven.pending.injEq] at hdrive
      obtain ⟨rfl, rfl⟩ := hdrive
      exact ⟨count, next, source, rfl, hpoll⟩
    | broken error source₁ => simp only [hpoll, reduceCtorEq] at hdrive

theorem Program.drive_preserves {poll : ℕ → σ → Poll ε β σ} {Keeps : σ → Prop}
    (hpoll : ∀ count source, Keeps source → Keeps (poll count source).source)
    (p : Program ε γ β α) (env : γ) {source : σ} (hsource : Keeps source) :
    Keeps (p.drive poll env source).source := by
  induction p generalizing source with
  | ret value => exact hsource
  | fail error => exact hsource
  | ask next ih => exact ih env hsource
  | read count next ih =>
    have hkeeps := hpoll count source hsource
    simp only [drive]
    cases hanswer : poll count source with
    | ready symbols source₁ => exact ih symbols (by simpa only [hanswer, Poll.source] using hkeeps)
    | pending source₁ => simpa only [hanswer, Poll.source, Driven.source] using hkeeps
    | broken error source₁ => simpa only [hanswer, Poll.source, Driven.source] using hkeeps

end Tiberius.Reading
