import Mathlib.Data.List.Basic

/-!
Vectors that own an allocation. A vector holds as many elements as its capacity
before it has to move to a larger allocation; growing at least doubles the
capacity, and no allocation is larger than a limit. An operation without a
result is one that asked for more.
-/

namespace Machine

/-- The capacity that a vector of bytes grows to. -/
def amortized (capacity needed : ℕ) : ℕ := max (max (2 * capacity) needed) 8

/-- The capacity of a vector that is to hold so many elements. -/
def growth (limit capacity needed : ℕ) : Option ℕ :=
  if needed ≤ capacity then some capacity
  else if amortized capacity needed ≤ limit then some (amortized capacity needed)
  else none

/-- The elements of a vector within its capacity, and the capacity within the limit. -/
structure Vec (β : Type) (limit : ℕ) where
  elems : List β
  capacity : ℕ
  length_le : elems.length ≤ capacity
  capacity_le : capacity ≤ limit

variable {β : Type} {limit capacity needed grown : ℕ}

theorem growth_of_le (hle : needed ≤ capacity) : growth limit capacity needed = some capacity :=
  if_pos hle

theorem growth_bounds (hgrowth : growth limit capacity needed = some grown)
    (hcapacity : capacity ≤ limit) : needed ≤ grown ∧ grown ≤ limit := by
  unfold growth at hgrowth
  split_ifs at hgrowth with hle hlimit
  · obtain rfl := Option.some.inj hgrowth
    exact ⟨hle, hcapacity⟩
  · obtain rfl := Option.some.inj hgrowth
    refine ⟨?_, hlimit⟩
    unfold amortized
    omega

theorem capacity_le_growth (hgrowth : growth limit capacity needed = some grown) :
    capacity ≤ grown := by
  unfold growth at hgrowth
  split_ifs at hgrowth with hle hlimit
  · exact Nat.le_of_eq (Option.some.inj hgrowth)
  · obtain rfl := Option.some.inj hgrowth
    unfold amortized
    omega

/-- Half the limit is always within reach. -/
theorem growth_of_half (capacity : ℕ) (hhalf : 2 * needed ≤ limit + 1) (hlimit : 8 ≤ limit) :
    ∃ grown, growth limit capacity needed = some grown := by
  unfold growth
  split_ifs with hle hlarge
  · exact ⟨_, rfl⟩
  · exact ⟨_, rfl⟩
  · unfold amortized at hlarge
    omega

namespace Vec

/-- A vector with no room to spare. -/
def ofList (elems : List β) (hle : elems.length ≤ limit) : Vec β limit where
  elems := elems
  capacity := elems.length
  length_le := Nat.le_refl _
  capacity_le := hle

def truncate (vec : Vec β limit) (length : ℕ) : Vec β limit where
  elems := vec.elems.take length
  capacity := vec.capacity
  length_le := by
    have hle := vec.length_le
    rw [List.length_take]
    omega
  capacity_le := vec.capacity_le

/-- Other elements, for which the vector is grown as far as they need. -/
def hold (vec : Vec β limit) (needed : ℕ) (elems : List β)
    (hle : elems.length ≤ max vec.capacity needed) : Option (Vec β limit) :=
  match hgrowth : growth limit vec.capacity needed with
  | none => none
  | some capacity =>
    some
      { elems := elems
        capacity := capacity
        length_le := Nat.le_trans hle (Nat.max_le.mpr
          ⟨capacity_le_growth hgrowth, (growth_bounds hgrowth vec.capacity_le).1⟩)
        capacity_le := (growth_bounds hgrowth vec.capacity_le).2 }

/-- Cut the vector, or fill it up with blanks. -/
def resize (vec : Vec β limit) (length : ℕ) (blank : β) : Option (Vec β limit) :=
  if hshort : length ≤ vec.elems.length then some (vec.truncate length)
  else
    vec.hold length (vec.elems ++ List.replicate (length - vec.elems.length) blank) (by
      rw [List.length_append, List.length_replicate]
      omega)

/-- Write into the vector from a position on; it does not become longer. -/
def overwrite (vec : Vec β limit) (pos : ℕ) (symbols : List β) : Vec β limit where
  elems := (vec.elems.take pos ++ symbols ++ vec.elems.drop (pos + symbols.length)).take
    vec.elems.length
  capacity := vec.capacity
  length_le := by
    have hle := vec.length_le
    rw [List.length_take]
    omega
  capacity_le := vec.capacity_le

theorem truncate_elems {vec : Vec β limit} {front behind : List β}
    (helems : vec.elems = front ++ behind) : (vec.truncate front.length).elems = front := by
  change vec.elems.take front.length = front
  rw [helems, List.take_left]

theorem hold_some {vec : Vec β limit} {elems : List β}
    (hle : elems.length ≤ max vec.capacity needed)
    (hgrowth : growth limit vec.capacity needed = some capacity) :
    ∃ held, vec.hold needed elems hle = some held ∧ held.capacity = capacity ∧
      held.elems = elems := by
  unfold hold
  split
  · rename_i hnone
    rw [hnone] at hgrowth
    cases hgrowth
  · rename_i other hother
    rw [hother] at hgrowth
    exact ⟨_, rfl, Option.some.inj hgrowth, rfl⟩

theorem hold_none {vec : Vec β limit} {elems : List β}
    (hle : elems.length ≤ max vec.capacity needed)
    (hgrowth : growth limit vec.capacity needed = none) : vec.hold needed elems hle = none := by
  unfold hold
  split
  · rfl
  · rename_i other hother
    rw [hother] at hgrowth
    cases hgrowth

theorem resize_grows {vec : Vec β limit} {length : ℕ} (blank : β)
    (hlength : vec.elems.length ≤ length)
    (hgrowth : growth limit vec.capacity length = some capacity) :
    ∃ larger, vec.resize length blank = some larger ∧ larger.capacity = capacity ∧
      larger.elems = vec.elems ++ List.replicate (length - vec.elems.length) blank := by
  unfold resize
  split_ifs with hle
  · -- Nothing is added, and nothing had to be reserved for it.
    have hroom : length ≤ vec.capacity := by
      have hin := vec.length_le
      omega
    rw [growth_of_le hroom] at hgrowth
    refine ⟨_, rfl, Option.some.inj hgrowth, ?_⟩
    rw [show length - vec.elems.length = 0 by omega, List.replicate_zero, List.append_nil]
    exact List.take_of_length_le hlength
  · exact hold_some _ hgrowth

theorem resize_none {vec : Vec β limit} {length : ℕ} (blank : β)
    (hgrowth : growth limit vec.capacity length = none) : vec.resize length blank = none := by
  have hroom : ¬ length ≤ vec.elems.length := by
    intro hle
    rw [growth_of_le (Nat.le_trans hle vec.length_le)] at hgrowth
    cases hgrowth
  unfold resize
  rw [dif_neg hroom]
  exact hold_none _ hgrowth

/-- Writing over the blanks behind a front. -/
theorem overwrite_elems {vec : Vec β limit} {front old symbols behind : List β}
    (helems : vec.elems = front ++ old ++ behind) (hlength : old.length = symbols.length) :
    (vec.overwrite front.length symbols).elems = front ++ symbols ++ behind := by
  have htake : vec.elems.take front.length = front := by
    rw [helems, List.append_assoc, List.take_left]
  have hdrop : vec.elems.drop (front.length + symbols.length) = behind := by
    rw [helems, ← hlength, ← List.length_append, List.drop_left]
  change (vec.elems.take front.length ++ symbols ++
    vec.elems.drop (front.length + symbols.length)).take vec.elems.length = _
  rw [htake, hdrop, helems]
  apply List.take_of_length_le
  simp only [List.length_append, hlength, Nat.le_refl]

end Vec

end Machine
