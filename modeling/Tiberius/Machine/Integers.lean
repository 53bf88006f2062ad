import Mathlib.Data.Int.Notation
import Mathlib.Tactic.Ring

/-!
Machine integers as exact integers with a range. An operation whose exact result
leaves the range ends the program in one build and goes on with the wrapped result in
another, unless the program asks first. Nothing here depends on a width.
-/

namespace Machine

/-- What a build makes of a plain operation that overflows. -/
inductive Build where
  | panics
  | wraps
  deriving DecidableEq, Repr

variable {bits : ℕ} {n a b : ℤ}

def Fits (bits : ℕ) (n : ℤ) : Prop := -2 ^ (bits - 1) ≤ n ∧ n < 2 ^ (bits - 1)

instance : Decidable (Fits bits n) := inferInstanceAs (Decidable (_ ∧ _))

def wrap (bits : ℕ) (n : ℤ) : ℤ := n.bmod (2 ^ bits)

/-- A plain operation with some exact result. No result is a panic. -/
def Build.plain (build : Build) (bits : ℕ) (exact : ℤ) : Option ℤ :=
  if Fits bits exact then some exact
  else
    match build with
    | panics => none
    | wraps => some (wrap bits exact)

/-- A plain operation on unsigned integers. -/
def Build.plainUnsigned (build : Build) (bits exact : ℕ) : Option ℕ :=
  if exact < 2 ^ bits then some exact
  else
    match build with
    | panics => none
    | wraps => some (exact % 2 ^ bits)

/-- An operation that says when its result does not fit. -/
def checked (bits : ℕ) (exact : ℤ) : Option ℤ := if Fits bits exact then some exact else none

/-- Division panics in every build where it has no result. -/
def quotient (bits : ℕ) (a b : ℤ) : Option ℤ := if b = 0 then none else checked bits (a.tdiv b)

def remainder (bits : ℕ) (a b : ℤ) : Option ℤ :=
  (quotient bits a b).map fun _ => a.tmod b

theorem fits_of_natAbs (h : n.natAbs < 2 ^ (bits - 1)) : Fits bits n := by
  have hcast : ((2 ^ (bits - 1) : ℕ) : ℤ) = 2 ^ (bits - 1) := by push_cast; rfl
  unfold Fits
  omega

theorem Fits.tdiv (ha : Fits bits a) (hb : 0 < b) : Fits bits (a.tdiv b) := by
  have hle : (a.tdiv b).natAbs ≤ a.natAbs := Int.natAbs_tdiv_le_natAbs a b
  have hpos : 0 ≤ a → 0 ≤ a.tdiv b := fun h => Int.tdiv_nonneg h (Int.le_of_lt hb)
  have hneg : a ≤ 0 → a.tdiv b ≤ 0 := by
    intro h
    have hquotient : 0 ≤ (-a).tdiv b := Int.tdiv_nonneg (by omega) (Int.le_of_lt hb)
    rw [Int.neg_tdiv] at hquotient
    omega
  unfold Fits at *
  omega

theorem Build.plain_of_fits (build : Build) (h : Fits bits n) : build.plain bits n = some n :=
  if_pos h

theorem Build.plainUnsigned_panics {exact result : ℕ}
    (h : Build.panics.plainUnsigned bits exact = some result) : result = exact := by
  unfold plainUnsigned at h
  split_ifs at h
  exact (Option.some.inj h).symm

theorem checked_of_fits (h : Fits bits n) : checked bits n = some n := if_pos h

theorem checked_of_not_fits (h : ¬ Fits bits n) : checked bits n = none := if_neg h

theorem quotient_of_pos (ha : Fits bits a) (hb : 0 < b) :
    quotient bits a b = some (a.tdiv b) := by
  rw [quotient, if_neg (by omega), checked_of_fits (ha.tdiv hb)]

theorem remainder_of_pos (ha : Fits bits a) (hb : 0 < b) :
    remainder bits a b = some (a.tmod b) := by
  rw [remainder, quotient_of_pos ha hb]
  rfl

theorem plain_panics_of_not_fits (h : ¬ Fits bits n) : Build.panics.plain bits n = none :=
  if_neg h

end Machine
