import Mathlib.Data.List.Basic

/-!
Streams that are polled. What a stream will deliver is a list of arrivals, each
a piece of symbols or a moment at which the reader has to wait; the end of the
list is the end of the stream. A stream that is written to takes some first part
of what it is offered, as often as it is ready, and then makes the writer wait.
-/

namespace Tiberius.Reading

/-- The answer to a poll. -/
inductive Ready (α : Type) where
  | pending
  | ready (value : α)
  deriving DecidableEq, Repr

inductive Arrival (β : Type) where
  | pending
  | piece (symbols : List β)
  deriving DecidableEq, Repr

variable {β : Type}

/-- The symbols that will arrive. -/
def arriving : List (Arrival β) → List β
  | [] => []
  | .pending :: rest => arriving rest
  | .piece symbols :: rest => symbols ++ arriving rest

/-- How often the reader will have to wait. -/
def waits : List (Arrival β) → ℕ
  | [] => 0
  | .pending :: rest => waits rest + 1
  | .piece _ :: rest => waits rest

/-- Poll for at most `count` symbols. What does not fit stays in front of the
stream, and a stream that has ended returns nothing. -/
def pollSome (count : ℕ) : List (Arrival β) → Ready (List β) × List (Arrival β)
  | [] => (.ready [], [])
  | .pending :: rest => (.pending, rest)
  | .piece symbols :: rest =>
    if symbols.length ≤ count then (.ready symbols, rest)
    else (.ready (symbols.take count), .piece (symbols.drop count) :: rest)

/-- No piece is empty, so that nothing but the end of the stream reads as it. -/
def Solid (arrivals : List (Arrival β)) : Prop :=
  ∀ symbols, .piece symbols ∈ arrivals → symbols ≠ []

theorem solid_tail {arrival : Arrival β} {arrivals : List (Arrival β)}
    (hsolid : Solid (arrival :: arrivals)) : Solid arrivals :=
  fun symbols hmem => hsolid symbols (List.mem_cons_of_mem arrival hmem)

/-- What one poll of a stream does. -/
theorem pollSome_cases {count : ℕ} {arrivals : List (Arrival β)} (hcount : 0 < count)
    (hsolid : Solid arrivals) :
    (arrivals = [] ∧ pollSome count arrivals = (.ready [], [])) ∨
    (∃ rest, pollSome count arrivals = (.pending, rest) ∧ Solid rest ∧
      arriving rest = arriving arrivals ∧ waits rest + 1 = waits arrivals) ∨
    ∃ symbols rest, pollSome count arrivals = (.ready symbols, rest) ∧ Solid rest ∧
      symbols ≠ [] ∧ symbols.length ≤ count ∧ symbols ++ arriving rest = arriving arrivals ∧
      waits rest = waits arrivals := by
  cases arrivals with
  | nil => exact .inl ⟨rfl, rfl⟩
  | cons arrival arrivals =>
    cases arrival with
    | pending => exact .inr (.inl ⟨arrivals, rfl, solid_tail hsolid, rfl, rfl⟩)
    | piece symbols =>
      have hne := hsolid symbols List.mem_cons_self
      refine .inr (.inr ?_)
      by_cases hfits : symbols.length ≤ count
      · exact ⟨symbols, arrivals, if_pos hfits, solid_tail hsolid, hne, hfits, rfl, rfl⟩
      · refine ⟨symbols.take count, .piece (symbols.drop count) :: arrivals, if_neg hfits, ?_, ?_,
          List.length_take_le _ _, ?_, rfl⟩
        · intro other hother
          rcases List.mem_cons.mp hother with hpiece | hrest
          · cases hpiece
            intro hnil
            have hlength := congrArg List.length hnil
            rw [List.length_drop, List.length_nil] at hlength
            omega
          · exact hsolid other (List.mem_cons_of_mem _ hrest)
        · intro hnil
          have hlength := congrArg List.length hnil
          have hpos := List.length_pos_iff.mpr hne
          rw [List.length_take, List.length_nil] at hlength
          omega
        · simp only [arriving]
          rw [← List.append_assoc, List.take_append_drop]

/-- Offer a buffer until it is taken or the stream makes the writer wait: the
symbols taken and those left. Each of the counts is one less than the number of
symbols that the stream is ready to take. -/
def drain : List β → List ℕ → List β × List β
  | [], _ => ([], [])
  | buffer, [] => ([], buffer)
  | buffer, count :: counts =>
    let (taken, left) := drain (buffer.drop (count + 1)) counts
    (buffer.take (count + 1) ++ taken, left)

theorem drain_append (buffer : List β) (counts : List ℕ) :
    (drain buffer counts).1 ++ (drain buffer counts).2 = buffer := by
  fun_induction drain buffer counts with
  | case1 => rfl
  | case2 => rfl
  | case3 buffer count counts hbuffer taken left hdrain ih =>
    rw [hdrain] at ih
    rw [List.append_assoc, ih, List.take_append_drop]

end Tiberius.Reading
