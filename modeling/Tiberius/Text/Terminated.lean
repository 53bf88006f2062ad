import Mathlib.Data.List.Basic
import Mathlib.Data.List.Infix

/-!
Searching a text from its end for a marker, and what such a search finds in a
sequence of fields, each of which has a separator behind it. A word with the
separator is found behind every field that ends in the word.
-/

namespace Terminated

section Search

variable {α : Type}

/-- The runs of `size` symbols, from left to right. -/
def windows (size : ℕ) (text : List α) : List (List α) :=
  (List.range (text.length + 1 - size)).map fun start => (text.drop start).take size

theorem windows_length (size : ℕ) (text : List α) :
    (windows size text).length = text.length + 1 - size := by
  rw [windows, List.length_map, List.length_range]

/-- Counted from the end, the window in front of `pos` symbols. -/
theorem reverse_windows_getElem {size pos : ℕ} {text : List α}
    (hpos : pos < (windows size text).reverse.length) :
    (windows size text).reverse[pos] = (text.drop (text.length - size - pos)).take size := by
  rw [List.length_reverse, windows_length] at hpos
  have hstart : text.length + 1 - size - 1 - pos = text.length - size - pos := by omega
  simp only [windows, List.getElem_reverse, List.getElem_map, List.getElem_range,
    List.length_map, List.length_range, hstart]

theorem window_eq_iff {marker text : List α} {pos : ℕ}
    (hpos : pos + marker.length ≤ text.length) :
    (text.drop (text.length - marker.length - pos)).take marker.length = marker ↔
      marker ++ text.drop (text.length - pos) <:+ text := by
  have hstart : text.length - marker.length - pos + marker.length = text.length - pos := by omega
  constructor
  · intro htake
    have hsplit := List.take_append_drop marker.length
      (text.drop (text.length - marker.length - pos))
    rw [htake, List.drop_drop, hstart] at hsplit
    rw [hsplit]
    exact List.drop_suffix _ _
  · rintro ⟨front, hfront⟩
    have hlength := congrArg List.length hfront
    simp only [List.length_append, List.length_drop] at hlength
    have hskip : text.length - marker.length - pos = front.length := by omega
    rw [hskip]
    conv_lhs => rw [← hfront]
    rw [List.drop_left, List.take_left]

variable {marker text : List α}

/-- Every occurrence of the marker is a window. -/
theorem window_of_suffix {other : List α} (hother : marker ++ other <:+ text) :
    ∃ hpos : other.length < (windows marker.length text).reverse.length,
      (windows marker.length text).reverse[other.length] = marker := by
  have hlength := hother.length_le
  rw [List.length_append] at hlength
  have hpos : other.length < (windows marker.length text).reverse.length := by
    rw [List.length_reverse, windows_length]
    omega
  refine ⟨hpos, ?_⟩
  rw [reverse_windows_getElem hpos, window_eq_iff (by omega)]
  have hback : other = text.drop (text.length - other.length) :=
    List.suffix_iff_eq_drop.mp ((List.suffix_append marker other).trans hother)
  rw [← hback]
  exact hother

variable [DecidableEq α]

/-- How many symbols there are behind the last occurrence of the marker. -/
def behindLast (marker text : List α) : Option ℕ :=
  (windows marker.length text).reverse.findIdx? (· = marker)

/-- An occurrence is the last one if no other one has less behind it. -/
theorem behindLast_eq_some {pos : ℕ} (hfound : behindLast marker text = some pos) :
    ∃ back, back.length = pos ∧ marker ++ back <:+ text ∧
      ∀ other, marker ++ other <:+ text → pos ≤ other.length := by
  obtain ⟨hpos, hmarker, hlast⟩ := List.findIdx?_eq_some_iff_getElem.mp hfound
  have hinside := hpos
  rw [List.length_reverse, windows_length] at hinside
  rw [reverse_windows_getElem hpos, decide_eq_true_eq, window_eq_iff (by omega)] at hmarker
  refine ⟨text.drop (text.length - pos), ?_, hmarker, ?_⟩
  · rw [List.length_drop]
    omega
  · intro other hother
    by_contra hless
    obtain ⟨_, hwindow⟩ := window_of_suffix hother
    apply hlast other.length (by omega)
    rw [hwindow, decide_eq_true_eq]

theorem behindLast_eq_none (hfound : behindLast marker text = none) (other : List α) :
    ¬ marker ++ other <:+ text := by
  intro hother
  obtain ⟨hpos, hwindow⟩ := window_of_suffix hother
  have hnone := List.findIdx?_eq_none_iff.mp hfound _ (List.getElem_mem hpos)
  rw [hwindow, decide_eq_false_iff_not] at hnone
  exact hnone rfl

theorem behindLast_le {pos : ℕ} (hfound : behindLast marker text = some pos) :
    pos ≤ text.length := by
  obtain ⟨back, rfl, hback, -⟩ := behindLast_eq_some hfound
  have hlength := hback.length_le
  rw [List.length_append] at hlength
  omega

end Search

section Fields

variable {α : Type}

/-- Fields, each with the separator behind it. -/
def terminated (sep : α) (fields : List (List α)) : List α :=
  fields.flatMap fun field => field ++ [sep]

@[simp] theorem terminated_nil (sep : α) : terminated sep [] = [] := rfl

theorem terminated_cons (sep : α) (field : List α) (fields : List (List α)) :
    terminated sep (field :: fields) = field ++ sep :: terminated sep fields := by
  rw [terminated, List.flatMap_cons, List.append_assoc]
  rfl

theorem terminated_append (sep : α) (first second : List (List α)) :
    terminated sep (first ++ second) = terminated sep first ++ terminated sep second :=
  List.flatMap_append

variable {sep : α}

/-- The symbols up to a separator and those behind it. -/
theorem append_sep_inj {first second rest more : List α} (hfirst : sep ∉ first)
    (hsecond : sep ∉ second) (heq : first ++ sep :: rest = second ++ sep :: more) :
    first = second ∧ rest = more := by
  induction first generalizing second with
  | nil =>
    cases second with
    | nil => exact ⟨rfl, (List.cons.inj heq).2⟩
    | cons c second =>
      obtain ⟨rfl, -⟩ := List.cons.inj heq
      exact absurd List.mem_cons_self hsecond
  | cons c first ih =>
    cases second with
    | nil =>
      obtain ⟨rfl, -⟩ := List.cons.inj heq
      exact absurd List.mem_cons_self hfirst
    | cons d second =>
      obtain ⟨rfl, htail⟩ := List.cons.inj heq
      obtain ⟨rfl, rfl⟩ := ih (fun h => hfirst (List.mem_cons_of_mem _ h))
        (fun h => hsecond (List.mem_cons_of_mem _ h)) htail
      exact ⟨rfl, rfl⟩

/-- A word with the separator stands at the end of a field, with whole fields behind. -/
theorem suffix_terminated_iff {word : List α} (hword : sep ∉ word) {fields : List (List α)}
    (hfields : ∀ field ∈ fields, sep ∉ field) {back : List α} :
    word ++ sep :: back <:+ terminated sep fields ↔
      ∃ front field behind, fields = front ++ field :: behind ∧ word <:+ field ∧
        back = terminated sep behind := by
  constructor
  · intro hsuffix
    induction fields with
    | nil =>
      have hnil := List.suffix_nil.mp hsuffix
      exact absurd hnil (List.append_ne_nil_of_right_ne_nil _ (List.cons_ne_nil _ _))
    | cons field fields ih =>
      obtain ⟨front, hfront⟩ := hsuffix
      rw [terminated_cons] at hfront
      have hplain : sep ∉ field := hfields field List.mem_cons_self
      rcases List.append_eq_append_iff.mp hfront with ⟨inside, hfield, hrest⟩ | ⟨inside, hfield, hrest⟩
      · -- the word begins in this field, so it ends with the field
        have hinside : sep ∉ inside := by
          intro hmem
          exact hplain (by rw [hfield]; exact List.mem_append_right _ hmem)
        obtain ⟨rfl, rfl⟩ := append_sep_inj hword hinside hrest
        exact ⟨[], field, fields, rfl, ⟨front, hfield.symm⟩, rfl⟩
      · cases inside with
        | nil =>
          have hempty : sep ∉ ([] : List α) := List.not_mem_nil
          obtain ⟨rfl, rfl⟩ := append_sep_inj hempty hword hrest
          exact ⟨[], field, fields, rfl, List.nil_suffix, rfl⟩
        | cons c inside =>
          obtain ⟨-, hrest⟩ := List.cons.inj hrest
          obtain ⟨before, other, behind, rfl, hother, hback⟩ :=
            ih (fun other hother => hfields other (List.mem_cons_of_mem _ hother))
              ⟨inside, hrest.symm⟩
          exact ⟨field :: before, other, behind, rfl, hother, hback⟩
  · rintro ⟨front, field, behind, rfl, ⟨lead, rfl⟩, rfl⟩
    refine ⟨terminated sep front ++ lead, ?_⟩
    rw [terminated_append, terminated_cons, List.append_assoc, List.append_assoc]

/-- The last element with a property is one element. -/
theorem last_unique {P : α → Prop} {front other behind more : List α} {x y : α}
    (heq : front ++ x :: behind = other ++ y :: more) (hx : P x) (hy : P y)
    (hbehind : ∀ c ∈ behind, ¬ P c) (hmore : ∀ c ∈ more, ¬ P c) : behind = more := by
  induction front generalizing other with
  | nil =>
    cases other with
    | nil => exact (List.cons.inj heq).2
    | cons c other =>
      obtain ⟨-, rfl⟩ := List.cons.inj heq
      exact absurd hy (hbehind y (List.mem_append_right _ List.mem_cons_self))
  | cons c front ih =>
    cases other with
    | nil =>
      obtain ⟨-, rfl⟩ := List.cons.inj heq
      exact absurd hx (hmore x (List.mem_append_right _ List.mem_cons_self))
    | cons d other => exact ih (List.cons.inj heq).2

variable [DecidableEq α]

/-- A search from the end finds the last field that ends in the word, and what is
left are the fields behind it. -/
theorem behindLast_terminated {word : List α} (hword : sep ∉ word) {fields : List (List α)}
    (hfields : ∀ field ∈ fields, sep ∉ field) {pos : ℕ}
    (hfound : behindLast (word ++ [sep]) (terminated sep fields) = some pos) :
    ∃ front field behind, fields = front ++ field :: behind ∧ word <:+ field ∧
      (∀ other ∈ behind, ¬ word <:+ other) ∧
      (terminated sep fields).drop ((terminated sep fields).length - pos) =
        terminated sep behind := by
  obtain ⟨back, rfl, hback, hlast⟩ := behindLast_eq_some hfound
  have hsuffix := (List.suffix_append (word ++ [sep]) back).trans hback
  rw [List.append_assoc, List.singleton_append] at hback
  obtain ⟨front, field, behind, hsplit, hfield, rfl⟩ :=
    (suffix_terminated_iff hword hfields).mp hback
  refine ⟨front, field, behind, hsplit, hfield, ?_, (List.suffix_iff_eq_drop.mp hsuffix).symm⟩
  intro other hother hends
  obtain ⟨between, later, rfl⟩ := List.append_of_mem hother
  have hlater : word ++ sep :: terminated sep later <:+ terminated sep fields := by
    rw [suffix_terminated_iff hword hfields]
    refine ⟨front ++ field :: between, other, later, ?_, hends, rfl⟩
    rw [hsplit, List.append_assoc, List.cons_append]
  have hless := hlast (terminated sep later) (by
    rw [List.append_assoc, List.singleton_append]
    exact hlater)
  rw [terminated_append, terminated_cons, List.length_append, List.length_append,
    List.length_cons] at hless
  omega

/-- A search that finds nothing shows that no field ends in the word. -/
theorem behindLast_terminated_none {word : List α} (hword : sep ∉ word) {fields : List (List α)}
    (hfields : ∀ field ∈ fields, sep ∉ field)
    (hfound : behindLast (word ++ [sep]) (terminated sep fields) = none) {field : List α}
    (hfield : field ∈ fields) : ¬ word <:+ field := by
  intro hends
  obtain ⟨front, behind, hsplit⟩ := List.append_of_mem hfield
  have hsuffix := (suffix_terminated_iff hword hfields).mpr ⟨front, field, behind, hsplit, hends, rfl⟩
  apply behindLast_eq_none hfound (terminated sep behind)
  rw [List.append_assoc, List.singleton_append]
  exact hsuffix

/-- The first field is what stands in front of the first separator. -/
theorem takeWhile_terminated {field : List α} (hfield : sep ∉ field)
    (fields : List (List α)) :
    (terminated sep (field :: fields)).takeWhile (· ≠ sep) = field := by
  have hplain : ∀ c ∈ field, decide (c ≠ sep) = true := by
    intro c hc
    apply decide_eq_true
    rintro rfl
    exact hfield hc
  rw [terminated_cons, List.takeWhile_append_of_pos hplain,
    List.takeWhile_cons_of_neg (by simp only [ne_eq, not_true, decide_false, Bool.false_eq_true,
      not_false_eq_true]), List.append_nil]

end Fields

end Terminated
