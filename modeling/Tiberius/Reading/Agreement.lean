import Tiberius.Reading.Exact

/-!
What a program ends with, how many symbols it has read by then, and when two
programs end alike. All are told from the leaves of the programs, with every read
returning as many symbols as it asks for, so that bounds that follow from a length
are at hand behind the read.
-/

namespace Tiberius.Reading

namespace Program

variable {ε γ β α δ : Type}

/-- The values that a program can end with satisfy `P`, and the errors `Q`. -/
def Ends (P : α → Prop) (Q : ε → Prop) : Program ε γ β α → Prop
  | ret value => P value
  | fail error => Q error
  | ask next => ∀ env, (next env).Ends P Q
  | read count next => ∀ taken, taken.length = count → (next taken).Ends P Q

theorem Ends.bind {P : α → Prop} {P' : δ → Prop} {Q : ε → Prop} {p : Program ε γ β α}
    {f : α → Program ε γ β δ} (hends : p.Ends P Q)
    (hnext : ∀ value, P value → (f value).Ends P' Q) :
    (p.bind f).Ends P' Q := by
  induction p with
  | ret value => exact hnext value hends
  | fail error => exact hends
  | ask next ih => exact fun env => ih env (hends env)
  | read count next ih => exact fun taken htaken => ih taken (hends taken htaken)

theorem Ends.imp {P P' : α → Prop} {Q Q' : ε → Prop} {p : Program ε γ β α} (hends : p.Ends P Q)
    (hvalue : ∀ value, P value → P' value) (herror : ∀ error, Q error → Q' error) :
    p.Ends P' Q' := by
  induction p with
  | ret value => exact hvalue value hends
  | fail error => exact herror error hends
  | ask next ih => exact fun env => ih env (hends env)
  | read count next ih => exact fun taken htaken => ih taken (hends taken htaken)

theorem Ends.mono {P P' : α → Prop} {Q : ε → Prop} {p : Program ε γ β α} (hends : p.Ends P Q)
    (hmore : ∀ value, P value → P' value) : p.Ends P' Q :=
  hends.imp hmore fun _ => id

theorem Ends.times {P : α → Prop} {Q : ε → Prop} {p : Program ε γ β α} (hends : p.Ends P Q)
    (count : ℕ) : (p.times count).Ends (fun _ => True) Q := by
  induction count with
  | zero => trivial
  | succ count ih => exact hends.bind fun value _ => ih.bind fun values _ => trivial

theorem ends_true (p : Program ε γ β α) : p.Ends (fun _ => True) (fun _ => True) := by
  induction p with
  | ret value => trivial
  | fail error => trivial
  | ask next ih => exact ih
  | read count next ih => exact fun taken _ => ih taken

/-- The value of a run is one that the program can end with. -/
theorem Ends.of_done {P : α → Prop} {Q : ε → Prop} {p : Program ε γ β α} {env : γ}
    {symbols rest : List β} {value : α} (hends : p.Ends P Q)
    (hrun : p.run env symbols = .done value rest) : P value := by
  induction p generalizing symbols with
  | ret other =>
    cases hrun
    exact hends
  | fail error => cases hrun
  | ask next ih => exact ih env (hends env) hrun
  | read count next ih =>
    by_cases hcount : count ≤ symbols.length
    · rw [run_read_of_le next env hcount] at hrun
      exact ih _ (hends _ (List.length_take_of_le hcount)) hrun
    · rw [run_read_of_lt next env (Nat.lt_of_not_le hcount)] at hrun
      cases hrun

/-- The error of a run is one that the program can end with. -/
theorem Ends.of_failed {P : α → Prop} {Q : ε → Prop} {p : Program ε γ β α} {env : γ}
    {symbols rest : List β} {error : ε} (hends : p.Ends P Q)
    (hrun : p.run env symbols = .failed error rest) : Q error := by
  induction p generalizing symbols with
  | ret value => cases hrun
  | fail error =>
    cases hrun
    exact hends
  | ask next ih => exact ih env (hends env) hrun
  | read count next ih =>
    by_cases hcount : count ≤ symbols.length
    · rw [run_read_of_le next env hcount] at hrun
      exact ih _ (hends _ (List.length_take_of_le hcount)) hrun
    · rw [run_read_of_lt next env (Nat.lt_of_not_le hcount)] at hrun
      cases hrun

/-- The values that a program can end with are related by `R` to the number of
symbols it has read until then. -/
def Takes (R : α → ℕ → Prop) : Program ε γ β α → Prop
  | ret value => R value 0
  | fail _ => True
  | ask next => ∀ env, (next env).Takes R
  | read count next =>
    ∀ taken, taken.length = count → (next taken).Takes fun value more => R value (count + more)

theorem Takes.mono {R R' : α → ℕ → Prop} {p : Program ε γ β α} (htakes : p.Takes R)
    (hmore : ∀ value count, R value count → R' value count) : p.Takes R' := by
  induction p generalizing R R' with
  | ret value => exact hmore value 0 htakes
  | fail error => trivial
  | ask next ih => exact fun env => ih env (htakes env) hmore
  | read count next ih =>
    exact fun taken htaken => ih taken (htakes taken htaken) fun value more => hmore value _

theorem Takes.bind {R : α → ℕ → Prop} {R' : δ → ℕ → Prop} {p : Program ε γ β α}
    {f : α → Program ε γ β δ} (htakes : p.Takes R)
    (hnext : ∀ value count, R value count →
      (f value).Takes fun other more => R' other (count + more)) : (p.bind f).Takes R' := by
  induction p generalizing R R' with
  | ret value =>
    refine (hnext value 0 htakes).mono fun other more hother => ?_
    rw [Nat.zero_add] at hother
    exact hother
  | fail error => trivial
  | ask next ih => exact fun env => ih env (htakes env) hnext
  | read count next ih =>
    intro taken htaken
    refine ih taken (htakes taken htaken) fun value more hvalue => ?_
    refine (hnext value _ hvalue).mono fun other last hother => ?_
    rw [← Nat.add_assoc]
    exact hother

theorem Takes.times {p : Program ε γ β α} {width : ℕ}
    (htakes : p.Takes fun _ count => count = width) (count : ℕ) :
    (p.times count).Takes fun _ total => total = count * width := by
  induction count with
  | zero => exact (Nat.zero_mul _).symm
  | succ count ih =>
    refine htakes.bind fun value first hfirst => ?_
    refine ih.bind fun values more hmore => ?_
    change first + (more + 0) = (count + 1) * width
    rw [Nat.succ_mul]
    omega

/-- A run that ends with a value has used the symbols that its value accounts
for. -/
theorem Takes.of_run {R : α → ℕ → Prop} {p : Program ε γ β α} {env : γ} {symbols rest : List β}
    {value : α} (htakes : p.Takes R) (hrun : p.run env symbols = .done value rest) :
    ∃ count, R value count ∧ count ≤ symbols.length ∧ rest = symbols.drop count := by
  induction p generalizing R symbols with
  | ret value =>
    cases hrun
    exact ⟨0, htakes, Nat.zero_le _, rfl⟩
  | fail error => cases hrun
  | ask next ih => exact ih env (htakes env) hrun
  | read count next ih =>
    by_cases hcount : count ≤ symbols.length
    · rw [run_read_of_le next env hcount] at hrun
      obtain ⟨more, hmore, hinside, hrest⟩ :=
        ih _ (htakes _ (List.length_take_of_le hcount)) hrun
      rw [List.length_drop] at hinside
      rw [List.drop_drop] at hrest
      exact ⟨count + more, hmore, by omega, hrest⟩
    · rw [run_read_of_lt next env (Nat.lt_of_not_le hcount)] at hrun
      cases hrun

/-- Two programs that read alike and fail alike, and end with related values. -/
inductive Agree (R : α → δ → Prop) : Program ε γ β α → Program ε γ β δ → Prop where
  | ret {value : α} {other : δ} (hvalue : R value other) : Agree R (ret value) (ret other)
  | fail (error : ε) : Agree R (fail error) (fail error)
  | ask {next : γ → Program ε γ β α} {next' : γ → Program ε γ β δ}
    (hnext : ∀ env, Agree R (next env) (next' env)) : Agree R (ask next) (ask next')
  | read {count : ℕ} {next : List β → Program ε γ β α} {next' : List β → Program ε γ β δ}
    (hnext : ∀ taken, taken.length = count → Agree R (next taken) (next' taken)) :
    Agree R (read count next) (read count next')

/-- A program agrees with itself, and what it ends with is known of both. -/
theorem Ends.agree {P : α → Prop} {Q : ε → Prop} {p : Program ε γ β α} (hends : p.Ends P Q) :
    Agree (fun value other => value = other ∧ P value) p p := by
  induction p with
  | ret value => exact .ret ⟨rfl, hends⟩
  | fail error => exact .fail error
  | ask next ih => exact .ask fun env => ih env (hends env)
  | read count next ih => exact .read fun taken htaken => ih taken (hends taken htaken)

theorem Agree.refl (p : Program ε γ β α) : Agree Eq p p := by
  induction p with
  | ret value => exact .ret rfl
  | fail error => exact .fail error
  | ask next ih => exact .ask ih
  | read count next ih => exact .read fun taken _ => ih taken

/-- What follows may rely on how the values are related. -/
theorem Agree.bind {ζ η : Type} {R : α → δ → Prop} {R' : ζ → η → Prop} {p : Program ε γ β α}
    {q : Program ε γ β δ} {f : α → Program ε γ β ζ} {g : δ → Program ε γ β η} (hagree : Agree R p q)
    (hnext : ∀ value other, R value other → Agree R' (f value) (g other)) :
    Agree R' (p.bind f) (q.bind g) := by
  induction hagree with
  | ret hvalue => exact hnext _ _ hvalue
  | fail error => exact .fail error
  | ask _ ih => exact .ask ih
  | read _ ih => exact .read ih

/-- Programs that begin alike. -/
theorem Agree.after {ζ η : Type} {R : ζ → η → Prop} (p : Program ε γ β α)
    {f : α → Program ε γ β ζ} {g : α → Program ε γ β η}
    (hnext : ∀ value, Agree R (f value) (g value)) : Agree R (p.bind f) (p.bind g) := by
  refine (Agree.refl p).bind ?_
  rintro value _ rfl
  exact hnext value

/-- Programs that agree end alike on every list. -/
theorem Agree.run {R : α → δ → Prop} {p : Program ε γ β α} {q : Program ε γ β δ}
    (hagree : Agree R p q) (env : γ) (symbols : List β) :
    (∀ value rest, p.run env symbols = .done value rest →
      ∃ other, R value other ∧ q.run env symbols = .done other rest) ∧
    ∀ error rest, p.run env symbols = .failed error rest →
      q.run env symbols = .failed error rest := by
  induction hagree generalizing symbols with
  | ret hvalue =>
    refine ⟨?_, ?_⟩
    · intro value rest hrun
      cases hrun
      exact ⟨_, hvalue, rfl⟩
    · intro error rest hrun
      cases hrun
  | fail error =>
    refine ⟨?_, fun _ _ hrun => ?_⟩
    · intro value rest hrun
      cases hrun
    · cases hrun
      rfl
  | ask _ ih => exact ih env symbols
  | @read count next next' _ ih =>
    by_cases hcount : count ≤ symbols.length
    · rw [run_read_of_le next env hcount, run_read_of_le next' env hcount]
      exact ih _ (List.length_take_of_le hcount) _
    · rw [run_read_of_lt next env (Nat.lt_of_not_le hcount)]
      constructor
      · intro value rest hrun
        cases hrun
      · intro error rest hrun
        cases hrun

end Program

end Tiberius.Reading
