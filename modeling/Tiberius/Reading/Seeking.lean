import Mathlib.Data.List.Basic

/-!
Reading symbols that are all there, from a position that can be set freely,
also behind the last symbol. A computation can end early with an error of its
own; ending because it has left the symbols or because a loop has not come to
an end are outcomes apart, so that their absence is a statement about it.
-/

namespace Tiberius.Reading

/-- What ends a computation on symbols in memory early. -/
inductive Stop (ε : Type) where
  | error (error : ε)
  | outOfBounds
  | endless
  deriving DecidableEq, Repr

/-- A computation on symbols and a position among them. -/
structure Seeking (β ε α : Type) : Type where
  run : List β → ℕ → Except (Stop ε) (α × ℕ)

namespace Seeking

variable {β ε α δ σ : Type}

instance : Monad (Seeking β ε) where
  pure value := { run := fun _ position => .ok (value, position) }
  bind computation next :=
    { run := fun symbols position =>
        match computation.run symbols position with
        | .ok (value, position) => (next value).run symbols position
        | .error stop => .error stop }

def reject (error : ε) : Seeking β ε α where
  run _ _ := .error (.error error)

def position : Seeking β ε ℕ where
  run _ position := .ok (position, position)

def setPosition (target : ℕ) : Seeking β ε Unit where
  run _ _ := .ok ((), target)

/-- `&symbols[start..]`. -/
def sliceFrom (start : ℕ) (symbols : List β) : Except (Stop ε) (List β) :=
  if start ≤ symbols.length then .ok (symbols.drop start) else .error .outOfBounds

/-- `symbols.split_at(count)`, its first half. -/
def splitAt (count : ℕ) (symbols : List β) :
    Except (Stop ε) { piece : List β // piece.length = count } :=
  if hcount : count ≤ symbols.length then
    .ok ⟨symbols.take count, List.length_take_of_le hcount⟩
  else .error .outOfBounds

/-- Read `count` symbols, or fail with `eof`. A position behind the last symbol
counts as the end of the symbols. -/
def readExact (eof : ε) (count : ℕ) :
    Seeking β ε { piece : List β // piece.length = count } where
  run symbols position := do
    let rest ← sliceFrom (min position symbols.length) symbols
    if rest.length < count then .error (.error eof)
    else
      let piece ← splitAt count rest
      .ok (piece, position + count)

/-- At most `fuel` rounds of a loop, each of which leaves it with a result or
goes on with a state. -/
def rounds (body : σ → Seeking β ε (α ⊕ σ)) : ℕ → σ → Seeking β ε α
  | 0, _ => { run := fun _ _ => .error .endless }
  | fuel + 1, state => do
    match ← body state with
    | .inl result => pure result
    | .inr next => rounds body fuel next

/-- A loop that may take one round per symbol, and one more. -/
def loop (body : σ → Seeking β ε (α ⊕ σ)) (state : σ) : Seeking β ε α where
  run symbols position := (rounds body (symbols.length + 1) state).run symbols position

theorem bind_apply (computation : Seeking β ε α) (next : α → Seeking β ε δ) (symbols : List β)
    (position : ℕ) :
    (computation >>= next).run symbols position =
      match computation.run symbols position with
      | .ok (value, position) => (next value).run symbols position
      | .error stop => .error stop := rfl

theorem bind_ok {computation : Seeking β ε α} {next : α → Seeking β ε δ} {symbols : List β}
    {position target : ℕ} {value : α}
    (hcall : computation.run symbols position = .ok (value, target)) :
    (computation >>= next).run symbols position = (next value).run symbols target := by
  rw [bind_apply, hcall]

/-- A computation that has returned has returned from each of its parts. -/
theorem of_bind_ok {computation : Seeking β ε α} {next : α → Seeking β ε δ} {symbols : List β}
    {position : ℕ} {result : δ × ℕ}
    (hcall : (computation >>= next).run symbols position = .ok result) :
    ∃ value target, computation.run symbols position = .ok (value, target) ∧
      (next value).run symbols target = .ok result := by
  rw [bind_apply] at hcall
  cases hfirst : computation.run symbols position with
  | ok found =>
    rw [hfirst] at hcall
    exact ⟨found.1, found.2, rfl, hcall⟩
  | error reason =>
    rw [hfirst] at hcall
    cases hcall

/-- A computation that, whatever the symbols and the position are, returns or
ends with an error of its own. -/
def Settles (computation : Seeking β ε α) : Prop :=
  ∀ symbols position stop, computation.run symbols position = .error stop →
    ∃ error, stop = .error error

theorem settles_pure (value : α) : Settles (pure value : Seeking β ε α) := by
  intro symbols position stop hstop
  cases hstop

theorem settles_reject (error : ε) : Settles (reject error : Seeking β ε α) := by
  intro symbols position stop hstop
  cases hstop
  exact ⟨error, rfl⟩

theorem settles_position : Settles (position : Seeking β ε ℕ) := by
  intro symbols position stop hstop
  cases hstop

theorem settles_setPosition (target : ℕ) : Settles (setPosition target : Seeking β ε Unit) := by
  intro symbols position stop hstop
  cases hstop

theorem settles_ite {p : Prop} [Decidable p] {first second : Seeking β ε α}
    (hfirst : Settles first) (hsecond : Settles second) :
    Settles (if p then first else second) := by
  split_ifs
  · exact hfirst
  · exact hsecond

theorem settles_bind {computation : Seeking β ε α} {next : α → Seeking β ε δ}
    (hcomputation : Settles computation) (hnext : ∀ value, Settles (next value)) :
    Settles (computation >>= next) := by
  intro symbols position stop hstop
  rw [bind_apply] at hstop
  cases hcall : computation.run symbols position with
  | ok result =>
    rw [hcall] at hstop
    exact hnext result.1 symbols result.2 stop hstop
  | error reason =>
    rw [hcall] at hstop
    obtain rfl : reason = stop := Except.error.inj hstop
    exact hcomputation symbols position reason hcall

/-- What a read does: it returns the symbols at the position, or there are not
enough of them. -/
theorem readExact_eq (eof : ε) (count : ℕ) (symbols : List β) (position : ℕ) :
    (readExact eof count).run symbols position =
      if hcount : count ≤ (symbols.drop position).length then
        .ok (⟨(symbols.drop position).take count, List.length_take_of_le hcount⟩, position + count)
      else .error (.error eof) := by
  have hdrop : symbols.drop (min position symbols.length) = symbols.drop position := by
    by_cases hposition : position ≤ symbols.length
    · rw [Nat.min_eq_left hposition]
    · have hnil : symbols.drop position = [] := List.drop_eq_nil_of_le (by omega)
      rw [Nat.min_eq_right (by omega), List.drop_length, hnil]
  have hslice : (sliceFrom (min position symbols.length) symbols : Except (Stop ε) (List β)) =
      .ok (symbols.drop position) := by
    rw [sliceFrom, if_pos (Nat.min_le_right _ _), hdrop]
  simp only [readExact, hslice]
  change (if _ then _ else _) = _
  by_cases hcount : count ≤ (symbols.drop position).length
  · rw [if_neg (Nat.not_lt.mpr hcount), dif_pos hcount, splitAt, dif_pos hcount]
    rfl
  · rw [if_pos (Nat.lt_of_not_le hcount), dif_neg hcount]

theorem settles_readExact (eof : ε) (count : ℕ) :
    Settles (readExact eof count : Seeking β ε { piece : List β // piece.length = count }) := by
  intro symbols position stop hstop
  rw [readExact_eq] at hstop
  split at hstop
  · cases hstop
  · cases hstop
    exact ⟨eof, rfl⟩

/-- A read that returns has moved forward, and not beyond the last symbol. -/
theorem target_of_readExact {eof : ε} {count : ℕ} {symbols : List β} {position target : ℕ}
    {piece : { piece : List β // piece.length = count }}
    (hread : (readExact eof count).run symbols position = .ok (piece, target)) :
    target = position + count ∧ (0 < count → target ≤ symbols.length) := by
  rw [readExact_eq] at hread
  split at hread
  next hcount =>
    cases hread
    rw [List.length_drop] at hcount
    exact ⟨rfl, fun hpos => by omega⟩
  next => cases hread

/-- A computation that returns only behind the position it was called at, and
not behind the last symbol. -/
def Advances (computation : Seeking β ε (α ⊕ σ)) : Prop :=
  ∀ symbols position state target,
    computation.run symbols position = .ok (.inr state, target) →
      position < target ∧ target ≤ symbols.length

theorem settles_rounds {body : σ → Seeking β ε (α ⊕ σ)} (hbody : ∀ state, Settles (body state))
    (hadvances : ∀ state, Advances (body state)) (fuel : ℕ) (state : σ) (symbols : List β)
    (position : ℕ) (stop : Stop ε) (hfuel : symbols.length - position < fuel)
    (hstop : (rounds body fuel state).run symbols position = .error stop) :
    ∃ error, stop = .error error := by
  induction fuel generalizing state position with
  | zero => omega
  | succ fuel ih =>
    rw [rounds, bind_apply] at hstop
    cases hcall : (body state).run symbols position with
    | error reason =>
      rw [hcall] at hstop
      obtain rfl : reason = stop := Except.error.inj hstop
      exact hbody state symbols position reason hcall
    | ok result =>
      obtain ⟨outcome, target⟩ := result
      rw [hcall] at hstop
      cases outcome with
      | inl value => cases hstop
      | inr next =>
        obtain ⟨hforward, hinside⟩ := hadvances state symbols position next target hcall
        exact ih next target (by omega) hstop

/-- A loop comes to an end if every round that goes on has moved forward. -/
theorem settles_loop {body : σ → Seeking β ε (α ⊕ σ)} (hbody : ∀ state, Settles (body state))
    (hadvances : ∀ state, Advances (body state)) (state : σ) : Settles (loop body state) := by
  intro symbols position stop hstop
  exact settles_rounds hbody hadvances _ state symbols position stop
    (Nat.lt_succ_of_le (Nat.sub_le _ _)) hstop

/-- Symbols that stand at a position. -/
def Stands (piece symbols : List β) (position : ℕ) : Prop :=
  (symbols.drop position).take piece.length = piece

theorem stands_append {first second symbols : List β} {position : ℕ}
    (hstands : Stands (first ++ second) symbols position) :
    Stands first symbols position ∧ Stands second symbols (position + first.length) := by
  unfold Stands at *
  rw [List.length_append] at hstands
  constructor
  · have htake := congrArg (List.take first.length) hstands
    rwa [List.take_take, Nat.min_eq_left (Nat.le_add_right _ _), List.take_left] at htake
  · have hdrop := congrArg (List.drop first.length) hstands
    rwa [List.drop_take, Nat.add_sub_cancel_left, List.drop_drop, List.drop_left] at hdrop

theorem Stands.length_le {piece symbols : List β} {position : ℕ} (hne : piece ≠ [])
    (hstands : Stands piece symbols position) : position + piece.length ≤ symbols.length := by
  have hlength := congrArg List.length hstands
  have hpos := List.length_pos_iff.mpr hne
  rw [List.length_take, List.length_drop] at hlength
  omega

/-- Symbols that stand at the position are read. -/
theorem readExact_stands {eof : ε} {piece symbols : List β} {count position : ℕ}
    (hlength : piece.length = count) (hstands : Stands piece symbols position) :
    (readExact eof count).run symbols position = .ok (⟨piece, hlength⟩, position + count) := by
  subst hlength
  have hcount : piece.length ≤ (symbols.drop position).length := by
    have hlength := congrArg List.length hstands
    rw [List.length_take] at hlength
    omega
  have hpiece : (⟨_, List.length_take_of_le hcount⟩ : { found : List β // found.length =
      piece.length }) = ⟨piece, rfl⟩ := Subtype.ext hstands
  rw [readExact_eq, dif_pos hcount, hpiece]

end Seeking

end Tiberius.Reading
