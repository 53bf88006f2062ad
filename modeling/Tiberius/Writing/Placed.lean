import Mathlib.Data.List.Basic

/-!
Pieces one behind the other. Each piece occupies a region of the whole, and is
found again by its start and size. Starts that are kept modulo some number tell
the regions apart, from one another and from what stands in front of them, only
as long as none of them wraps around.
-/

namespace Tiberius.Writing

/-- A run of positions. -/
structure Region where
  start : ℕ
  size : ℕ
  deriving DecidableEq, Repr

namespace Region

/-- No position is in both regions. -/
def Apart (region other : Region) : Prop :=
  region.size = 0 ∨ other.size = 0 ∨ region.start + region.size ≤ other.start ∨
    other.start + other.size ≤ region.start

/-- The region whose start is kept below a modulus. -/
def wrap (modulus : ℕ) (region : Region) : Region :=
  { region with start := region.start % modulus }

def slice {β : Type} (region : Region) (symbols : List β) : List β :=
  (symbols.drop region.start).take region.size

end Region

/-- The regions of pieces of the given sizes. -/
def placed (base : ℕ) : List ℕ → List Region
  | [] => []
  | size :: sizes => { start := base, size := size } :: placed (base + size) sizes

open Region

/-- Where the last piece ends. -/
def placedEnd (base : ℕ) : List ℕ → ℕ
  | [] => base
  | size :: sizes => placedEnd (base + size) sizes

theorem placed_length (base : ℕ) (sizes : List ℕ) : (placed base sizes).length = sizes.length := by
  induction sizes generalizing base with
  | nil => rfl
  | cons size rest ih => rw [placed, List.length_cons, List.length_cons, ih]

theorem le_placedEnd (base : ℕ) (sizes : List ℕ) : base ≤ placedEnd base sizes := by
  induction sizes generalizing base with
  | nil => exact Nat.le_refl _
  | cons size sizes ih => exact Nat.le_trans (Nat.le_add_right base size) (ih (base + size))

theorem placedEnd_lengths {β : Type} (base : ℕ) (pieces : List (List β)) :
    placedEnd base (pieces.map List.length) = base + pieces.flatten.length := by
  induction pieces generalizing base with
  | nil => rfl
  | cons piece pieces ih =>
    rw [List.map_cons, placedEnd, ih, List.flatten_cons, List.length_append, Nat.add_assoc]

/-- The regions lie between the base and the end of the last piece. -/
theorem placed_bounds {base : ℕ} {sizes : List ℕ} :
    ∀ region ∈ placed base sizes,
      base ≤ region.start ∧ region.start + region.size ≤ placedEnd base sizes := by
  induction sizes generalizing base with
  | nil => exact fun region hregion => absurd hregion List.not_mem_nil
  | cons size sizes ih =>
    intro region hregion
    rcases List.mem_cons.mp hregion with rfl | hregion
    · exact ⟨Nat.le_refl _, le_placedEnd (base + size) sizes⟩
    · obtain ⟨hlow, hhigh⟩ := ih region hregion
      exact ⟨Nat.le_trans (Nat.le_add_right base size) hlow, hhigh⟩

/-- A piece stands where its region says. -/
theorem slice_placed {β : Type} {pieces : List (List β)} {front behind piece : List β}
    {region : Region} {index : ℕ}
    (hregion : (placed front.length (pieces.map List.length))[index]? = some region)
    (hpiece : pieces[index]? = some piece) :
    region.slice (front ++ pieces.flatten ++ behind) = piece := by
  induction pieces generalizing front index with
  | nil => cases hpiece
  | cons first pieces ih =>
    cases index with
    | zero =>
      obtain rfl := Option.some.inj hregion
      obtain rfl := Option.some.inj hpiece
      rw [slice, List.flatten_cons, List.append_assoc, List.drop_left, List.append_assoc,
        List.take_left]
    | succ index =>
      have hrest : (placed (front ++ first).length (pieces.map List.length))[index]? =
          some region := by
        rw [List.length_append]
        exact hregion
      rw [List.flatten_cons, ← List.append_assoc]
      exact ih hrest hpiece

/-- Starts that wrap around run into what has been placed before, so the wrapped
regions are apart only if no start has wrapped. -/
theorem starts_of_apart {modulus base : ℕ} {sizes : List ℕ} {before : List Region}
    (hcovered : ∀ position < base, ∃ region ∈ before,
      region.start ≤ position ∧ position < region.start + region.size)
    (hpos : 0 < modulus)
    (hapart : (before ++ (placed base sizes).map (wrap modulus)).Pairwise Apart) :
    ∀ region ∈ placed base sizes, region.size ≠ 0 → region.start < modulus := by
  induction sizes generalizing base before with
  | nil => exact fun region hregion => absurd hregion List.not_mem_nil
  | cons size sizes ih =>
    intro region hregion hne
    have hrest : (before ++ (placed (base + size) sizes).map (wrap modulus)).Pairwise Apart :=
      hapart.sublist ((List.sublist_cons_self _ _).append_left before)
    by_cases hsize : size = 0
    · subst hsize
      rcases List.mem_cons.mp hregion with rfl | hregion
      · exact absurd rfl hne
      · exact ih hcovered hrest region hregion hne
    · have hstart : base < modulus := by
        by_contra hwraps
        have hmod := Nat.mod_lt base hpos
        obtain ⟨other, hother, hlow, hhigh⟩ := hcovered (base % modulus) (by omega)
        have hclash := (List.pairwise_append.mp hapart).2.2 other hother _ List.mem_cons_self
        simp only [Apart, wrap] at hclash
        omega
      rcases List.mem_cons.mp hregion with rfl | hregion
      · exact hstart
      · have hhead : wrap modulus { start := base, size := size } =
            { start := base, size := size } := by
          rw [wrap, Nat.mod_eq_of_lt hstart]
        rw [placed, List.map_cons, hhead, List.append_cons] at hapart
        refine ih ?_ hapart region hregion hne
        intro position hposition
        by_cases hbase : position < base
        · obtain ⟨other, hother, hin⟩ := hcovered position hbase
          exact ⟨other, List.mem_append_left _ hother, hin⟩
        · exact ⟨_, List.mem_append_right _ List.mem_cons_self, by simp only; omega⟩

theorem placed_apart (base : ℕ) (sizes : List ℕ) : (placed base sizes).Pairwise Apart := by
  induction sizes generalizing base with
  | nil => exact .nil
  | cons size sizes ih =>
    refine List.pairwise_cons.mpr ⟨?_, ih (base + size)⟩
    intro region hregion
    exact .inr (.inr (.inl (placed_bounds region hregion).1))

/-- The wrapped regions and what stands in front of them are apart exactly if no
piece that is not empty starts at the modulus or behind it. -/
theorem apart_wrapped_iff {modulus base : ℕ} (sizes : List ℕ) (hpos : 0 < modulus) :
    ({ start := 0, size := base } :: (placed base sizes).map (wrap modulus)).Pairwise Apart ↔
      ∀ region ∈ placed base sizes, region.size ≠ 0 → region.start < modulus := by
  constructor
  · intro hapart
    refine @starts_of_apart modulus base sizes [{ start := 0, size := base }] ?_ hpos hapart
    intro position hposition
    exact ⟨_, List.mem_cons_self, Nat.zero_le _, by simp only; omega⟩
  · intro hstarts
    have hsame : ∀ region ∈ placed base sizes, region.size ≠ 0 → wrap modulus region = region := by
      intro region hregion hne
      rw [wrap, Nat.mod_eq_of_lt (hstarts region hregion hne)]
    refine List.pairwise_cons.mpr ⟨?_, ?_⟩
    · intro wrapped hwrapped
      obtain ⟨region, hregion, rfl⟩ := List.mem_map.mp hwrapped
      by_cases hne : region.size = 0
      · exact .inr (.inl hne)
      · rw [hsame region hregion hne]
        refine .inr (.inr (.inl ?_))
        rw [Nat.zero_add]
        exact (placed_bounds region hregion).1
    · rw [List.pairwise_map]
      refine (placed_apart base sizes).imp_of_mem ?_
      intro region other hregion hother hapart
      by_cases hne : region.size = 0
      · exact .inl hne
      · by_cases hne' : other.size = 0
        · exact .inr (.inl hne')
        · rwa [hsame region hregion hne, hsame other hother hne']

end Tiberius.Writing
