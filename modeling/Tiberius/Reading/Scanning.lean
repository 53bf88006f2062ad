import Tiberius.Reading.Seeking

/-!
Reading symbols in memory by an index that a computation moves itself. Each
position that the index is given is kept, in order, so that where it has been is a
statement about the computation as much as its result. A computation that reads
what is left from its position on is described by a function on what is left; the
index is then in step with that function, never goes back and never leaves the
symbols.
-/

namespace Tiberius.Reading

/-- The positions given to an index, and how the computation ended. -/
structure Scan (ε α : Type) where
  visited : List ℕ
  outcome : Except (Stop ε) (α × ℕ)

/-- A computation on symbols and an index among them. -/
structure Scanner (β ε α : Type) where
  run : List β → ℕ → Scan ε α

namespace Scanner

variable {β ε α δ σ : Type}

/-- What follows on a computation that has returned. -/
def Scan.andThen (scan : Scan ε α) (next : α → ℕ → Scan ε δ) : Scan ε δ :=
  match scan.outcome with
  | .ok (value, position) =>
    { visited := scan.visited ++ (next value position).visited
      outcome := (next value position).outcome }
  | .error stop => { visited := scan.visited, outcome := .error stop }

instance : Monad (Scanner β ε) where
  pure value := { run := fun _ position => { visited := [], outcome := .ok (value, position) } }
  bind computation next :=
    { run := fun symbols position => Scan.andThen (computation.run symbols position)
        fun value position => (next value).run symbols position }

def reject (error : ε) : Scanner β ε α where
  run _ _ := { visited := [], outcome := .error (.error error) }

def position : Scanner β ε ℕ where
  run _ position := { visited := [], outcome := .ok (position, position) }

/-- `i + offset < n`. -/
def inside (offset : ℕ) : Scanner β ε Bool where
  run symbols position :=
    { visited := [], outcome := .ok (decide (position + offset < symbols.length), position) }

/-- `b[i + offset]`. -/
def symbol (offset : ℕ) : Scanner β ε β where
  run symbols position :=
    { visited := []
      outcome := match symbols[position + offset]? with
        | some value => .ok (value, position)
        | none => .error .outOfBounds }

/-- `i += count`. -/
def forward (count : ℕ) : Scanner β ε Unit where
  run _ position := { visited := [position + count], outcome := .ok ((), position + count) }

/-- `b[start..i]`. -/
def sliceFrom (start : ℕ) : Scanner β ε (List β) where
  run symbols position :=
    { visited := []
      outcome := if start ≤ position ∧ position ≤ symbols.length then
          .ok ((symbols.take position).drop start, position)
        else .error .outOfBounds }

/-- `let start = i`, and the slice `b[start..i]` behind a computation. -/
def sliceOver (computation : Scanner β ε α) : Scanner β ε (List β) := do
  let start ← position
  let _ ← computation
  sliceFrom start

/-- `i + offset < n && test(b[i + offset])`. -/
def holds (test : β → Bool) (offset : ℕ) : Scanner β ε Bool := do
  if ← inside offset then
    let value ← symbol offset
    pure (test value)
  else pure false

/-- At most `fuel` rounds of a loop, each of which leaves it with a result or goes on
with a state. -/
def rounds (body : σ → Scanner β ε (α ⊕ σ)) : ℕ → σ → Scanner β ε α
  | 0, _ => { run := fun _ _ => { visited := [], outcome := .error .endless } }
  | fuel + 1, state => do
    match ← body state with
    | .inl result => pure result
    | .inr next => rounds body fuel next

/-- A loop that may take one round per symbol, and one more. -/
def loop (body : σ → Scanner β ε (α ⊕ σ)) (state : σ) : Scanner β ε α where
  run symbols position := (rounds body (symbols.length + 1) state).run symbols position

/-- `while i < n && test(b[i]) { i += 1 }`. -/
def skipWhile (test : β → Bool) : Scanner β ε Unit :=
  loop (fun _ => do
    if ← holds test 0 then
      forward 1
      pure (.inr ())
    else pure (.inl ())) ()

end Scanner

/-- Positions that rise from a start to at most a stop, or stay. -/
def Climbs (start stop : ℕ) : List ℕ → Prop
  | [] => start ≤ stop
  | position :: positions => start ≤ position ∧ Climbs position stop positions

theorem Climbs.append {start middle stop : ℕ} {first second : List ℕ}
    (hfirst : Climbs start middle first) (hsecond : Climbs middle stop second) :
    Climbs start stop (first ++ second) := by
  induction first generalizing start with
  | nil =>
    cases second with
    | nil => exact Nat.le_trans hfirst hsecond
    | cons position positions => exact ⟨Nat.le_trans hfirst hsecond.1, hsecond.2⟩
  | cons position positions ih => exact ⟨hfirst.1, ih hfirst.2⟩

theorem Climbs.mono {start stop bound : ℕ} {positions : List ℕ}
    (hclimbs : Climbs start stop positions) (hstop : stop ≤ bound) :
    Climbs start bound positions := by
  have hlast : Climbs stop bound [] := hstop
  have happend := hclimbs.append hlast
  rwa [List.append_nil] at happend

namespace Scanner

variable {β ε α δ σ : Type}

/-- From every position with the same symbols left, a computation leaves the same
symbols and gives the same result, or fails with the same error. -/
def Computes (computation : Scanner β ε α) (rest : List β) : Except ε (α × List β) → Prop
  | .ok (value, tail) => ∃ used, rest = used ++ tail ∧ ∀ front : List β,
    (computation.run (front ++ rest) front.length).outcome =
        .ok (value, (front ++ used).length) ∧
      Climbs front.length (front ++ used).length
        (computation.run (front ++ rest) front.length).visited
  | .error error => ∀ front : List β,
    (computation.run (front ++ rest) front.length).outcome = .error (.error error) ∧
      Climbs front.length (front ++ rest).length
        (computation.run (front ++ rest) front.length).visited

namespace Computes

variable {computation : Scanner β ε α} {next : α → Scanner β ε δ} {rest tail : List β} {value : α}

theorem ret (value : α) (rest : List β) :
    Computes (pure value : Scanner β ε α) rest (.ok (value, rest)) := by
  refine ⟨[], rfl, fun front => ?_⟩
  rw [List.append_nil]
  exact ⟨rfl, Nat.le_refl front.length⟩

/-- What a computation leaves is the end of what it found. -/
theorem suffix (hcomputes : Computes computation rest (.ok (value, tail))) : tail <:+ rest := by
  obtain ⟨used, rfl, -⟩ := hcomputes
  exact List.suffix_append used tail

theorem reject (error : ε) (rest : List β) :
    Computes (reject error : Scanner β ε α) rest (.error error) := by
  refine fun front => ⟨rfl, ?_⟩
  change front.length ≤ _
  rw [List.length_append]
  exact Nat.le_add_right _ _

theorem run_bind {symbols : List β} {start target : ℕ}
    (houtcome : (computation.run symbols start).outcome = .ok (value, target)) :
    (computation >>= next).run symbols start =
      { visited := (computation.run symbols start).visited ++
          ((next value).run symbols target).visited
        outcome := ((next value).run symbols target).outcome } := by
  change Scan.andThen _ _ = _
  unfold Scan.andThen
  rw [houtcome]

theorem run_bind_error {symbols : List β} {start : ℕ} {stop : Stop ε}
    (houtcome : (computation.run symbols start).outcome = .error stop) :
    (computation >>= next).run symbols start =
      { visited := (computation.run symbols start).visited, outcome := .error stop } := by
  change Scan.andThen _ _ = _
  unfold Scan.andThen
  rw [houtcome]

theorem bind {result : Except ε (δ × List β)}
    (hfirst : Computes computation rest (.ok (value, tail)))
    (hsecond : Computes (next value) tail result) : Computes (computation >>= next) rest result := by
  obtain ⟨used, rfl, hfirst⟩ := hfirst
  cases result with
  | error error =>
    intro front
    obtain ⟨houtcome, hclimbs⟩ := hfirst front
    obtain ⟨hstop, hmore⟩ := hsecond (front ++ used)
    rw [List.append_assoc] at hstop hmore
    rw [run_bind houtcome]
    exact ⟨hstop, hclimbs.append hmore⟩
  | ok pair =>
    obtain ⟨more, rfl, hsecond⟩ := hsecond
    refine ⟨used ++ more, (List.append_assoc _ _ _).symm, fun front => ?_⟩
    obtain ⟨houtcome, hclimbs⟩ := hfirst front
    obtain ⟨hvalue, hmore⟩ := hsecond (front ++ used)
    rw [List.append_assoc, List.append_assoc] at hvalue hmore
    rw [run_bind houtcome]
    exact ⟨hvalue, hclimbs.append hmore⟩

theorem bind_error {error : ε} (hfirst : Computes computation rest (.error error)) :
    Computes (computation >>= next) rest (.error error) := by
  intro front
  obtain ⟨houtcome, hclimbs⟩ := hfirst front
  rw [run_bind_error houtcome]
  exact ⟨rfl, hclimbs⟩

theorem inside (offset : ℕ) (rest : List β) :
    Computes (inside offset : Scanner β ε Bool) rest
      (.ok (decide (offset < rest.length), rest)) := by
  refine ⟨[], rfl, fun front => ?_⟩
  rw [List.append_nil]
  refine ⟨?_, Nat.le_refl front.length⟩
  have hless : front.length + offset < (front ++ rest).length ↔ offset < rest.length := by
    rw [List.length_append]
    omega
  change Except.ok (decide (front.length + offset < (front ++ rest).length), front.length) = _
  rw [decide_eq_decide.mpr hless]

theorem inside_cons (item : β) (rest : List β) :
    Computes (Scanner.inside 0 : Scanner β ε Bool) (item :: rest) (.ok (true, item :: rest)) := by
  have hinside := @inside _ ε 0 (item :: rest)
  rwa [decide_eq_true (show 0 < (item :: rest).length from Nat.succ_pos _)] at hinside

theorem symbol {offset : ℕ} {item : β} (hitem : rest[offset]? = some item) :
    Computes (symbol offset : Scanner β ε β) rest (.ok (item, rest)) := by
  refine ⟨[], rfl, fun front => ?_⟩
  rw [List.append_nil]
  refine ⟨?_, Nat.le_refl front.length⟩
  have hfound : (front ++ rest)[front.length + offset]? = some item := by
    rw [List.getElem?_append_right (Nat.le_add_right _ _), Nat.add_sub_cancel_left, hitem]
  change (match (front ++ rest)[front.length + offset]? with
    | some value => .ok (value, front.length)
    | none => .error .outOfBounds : Except (Stop ε) (β × ℕ)) = _
  rw [hfound]

theorem forward (used tail : List β) :
    Computes (forward used.length : Scanner β ε Unit) (used ++ tail) (.ok ((), tail)) := by
  refine ⟨used, rfl, fun front => ?_⟩
  rw [List.length_append]
  exact ⟨rfl, Nat.le_add_right _ _, Nat.le_refl _⟩

theorem holds (test : β → Bool) (offset : ℕ) (rest : List β) :
    Computes (holds test offset : Scanner β ε Bool) rest
      (.ok (rest[offset]?.any test, rest)) := by
  refine (inside offset rest).bind ?_
  by_cases hoffset : offset < rest.length
  · rw [decide_eq_true hoffset, List.getElem?_eq_getElem hoffset]
    exact (symbol (List.getElem?_eq_getElem hoffset)).bind (ret _ rest)
  · rw [decide_eq_false hoffset, List.getElem?_eq_none (Nat.le_of_not_lt hoffset)]
    exact ret false rest

theorem sliceOver {used : List β}
    (hcomputes : Computes computation (used ++ tail) (.ok (value, tail))) :
    Computes (sliceOver computation) (used ++ tail) (.ok (used, tail)) := by
  obtain ⟨other, hother, hcomputes⟩ := hcomputes
  obtain rfl := List.append_cancel_right hother
  refine ⟨used, rfl, fun front => ?_⟩
  obtain ⟨houtcome, hclimbs⟩ := hcomputes front
  have hslice : (sliceFrom front.length).run (front ++ (used ++ tail)) (front ++ used).length =
      ({ visited := [], outcome := .ok (used, (front ++ used).length) } : Scan ε (List β)) := by
    have hbounds : front.length ≤ (front ++ used).length ∧
        (front ++ used).length ≤ (front ++ (used ++ tail)).length := by
      simp only [List.length_append]
      omega
    have hused : ((front ++ (used ++ tail)).take (front ++ used).length).drop front.length =
        used := by
      rw [← List.append_assoc, List.take_left, List.drop_left]
    change ({ visited := [], outcome := if _ then _ else _ } : Scan ε (List β)) = _
    rw [if_pos hbounds, hused]
  have hrest : (computation >>= fun _ => sliceFrom front.length).run (front ++ (used ++ tail))
      front.length =
        { visited := (computation.run (front ++ (used ++ tail)) front.length).visited
          outcome := .ok (used, (front ++ used).length) } := by
    rw [run_bind houtcome, hslice, List.append_nil]
  have hposition : ((position : Scanner β ε ℕ).run (front ++ (used ++ tail)) front.length).outcome =
      .ok (front.length, front.length) := rfl
  have hall : (Scanner.sliceOver computation).run (front ++ (used ++ tail)) front.length = _ :=
    run_bind hposition
  rw [hall, hrest]
  exact ⟨rfl, hclimbs⟩

/-- A loop, with enough rounds for what is left. -/
def Loops (body : σ → Scanner β ε (α ⊕ σ)) (state : σ) (rest : List β)
    (result : Except ε (α × List β)) : Prop :=
  ∀ fuel, rest.length < fuel → Computes (rounds body fuel state) rest result

section

variable {body : σ → Scanner β ε (α ⊕ σ)} {state more : σ} {result : Except ε (α × List β)}

theorem leave (hbody : Computes (body state) rest (.ok (.inl value, tail))) :
    Loops body state rest (.ok (value, tail)) := by
  intro fuel hfuel
  cases fuel with
  | zero => exact absurd hfuel (Nat.not_lt_zero _)
  | succ fuel => exact hbody.bind (ret value tail)

theorem stop {error : ε} (hbody : Computes (body state) rest (.error error)) :
    Loops body state rest (.error error) := by
  intro fuel hfuel
  cases fuel with
  | zero => exact absurd hfuel (Nat.not_lt_zero _)
  | succ fuel => exact hbody.bind_error

/-- A round that goes on has to leave less than it found. -/
theorem again (hbody : Computes (body state) rest (.ok (.inr more, tail)))
    (hless : tail.length < rest.length) (hloops : Loops body more tail result) :
    Loops body state rest result := by
  intro fuel hfuel
  cases fuel with
  | zero => exact absurd hfuel (Nat.not_lt_zero _)
  | succ fuel => exact hbody.bind (hloops fuel (by omega))

theorem loop (hloops : Loops body state rest result) :
    Computes (loop body state) rest result := by
  cases result with
  | error error =>
    intro front
    have hfuel : rest.length < (front ++ rest).length + 1 := by
      rw [List.length_append]
      omega
    exact hloops _ hfuel front
  | ok pair =>
    obtain ⟨used, rfl, -⟩ := hloops _ (Nat.lt_succ_self _)
    refine ⟨used, rfl, fun front => ?_⟩
    have hfuel : (used ++ pair.2).length < (front ++ (used ++ pair.2)).length + 1 := by
      simp only [List.length_append]
      omega
    obtain ⟨other, hother, hcomputes⟩ := hloops _ hfuel
    obtain rfl := List.append_cancel_right hother
    exact hcomputes front

end

/-- Symbols of a kind are passed over. -/
theorem skipWhile (test : β → Bool) (rest : List β) :
    Computes (skipWhile test : Scanner β ε Unit) rest (.ok ((), rest.dropWhile test)) := by
  apply loop
  induction rest with
  | nil => exact leave ((holds test 0 []).bind (ret _ []))
  | cons item rest ih =>
    rw [List.dropWhile_cons]
    split_ifs with hitem
    · refine again ((holds test 0 (item :: rest)).bind ?_) (Nat.lt_succ_self _) ih
      rw [List.getElem?_cons_zero, Option.any_some, hitem]
      exact (forward [item] rest).bind (ret _ rest)
    · refine leave ((holds test 0 (item :: rest)).bind ?_)
      rw [List.getElem?_cons_zero, Option.any_some, Bool.eq_false_iff.mpr hitem]
      exact ret _ (item :: rest)

theorem sliceOver_skipWhile (test : β → Bool) (rest : List β) :
    Computes (Scanner.sliceOver (Scanner.skipWhile test) : Scanner β ε (List β)) rest
      (.ok (rest.takeWhile test, rest.dropWhile test)) := by
  have hsplit : rest.takeWhile test ++ rest.dropWhile test = rest := List.takeWhile_append_dropWhile
  have hskip : Computes (Scanner.skipWhile test : Scanner β ε Unit)
      (rest.takeWhile test ++ rest.dropWhile test) (.ok ((), rest.dropWhile test)) := by
    rw [hsplit]
    exact skipWhile test rest
  have hslice := sliceOver hskip
  rwa [hsplit] at hslice

section

variable {symbols : List β} {result : Except ε (α × List β)}

/-- Over a whole run, the index climbs from the first symbol to at most the end. -/
theorem climbs (hcomputes : Computes computation symbols result) :
    Climbs 0 symbols.length (computation.run symbols 0).visited := by
  cases result with
  | error error => exact (hcomputes []).2
  | ok pair =>
    obtain ⟨used, rfl, hcomputes⟩ := hcomputes
    refine (hcomputes []).2.mono ?_
    rw [List.nil_append, List.length_append]
    exact Nat.le_add_right _ _

/-- A whole run gives the result, without leaving the symbols and without an endless
loop. -/
theorem outcome (hcomputes : Computes computation symbols result) :
    (computation.run symbols 0).outcome.map Prod.fst =
      Except.mapError Stop.error (result.map Prod.fst) := by
  cases result with
  | error error =>
    have houtcome : (computation.run symbols 0).outcome = .error (.error error) :=
      (hcomputes []).1
    rw [houtcome]
    rfl
  | ok pair =>
    obtain ⟨used, rfl, hcomputes⟩ := hcomputes
    have houtcome : (computation.run (used ++ pair.2) 0).outcome = .ok (pair.1, _) :=
      (hcomputes []).1
    rw [houtcome]
    rfl

end

end Computes

end Scanner

end Tiberius.Reading
