import Tiberius.Machine.Vectors
import Tiberius.Writing.TwoPart

/-!
Programs that write into a vector through a cursor. Every state that a program
goes through is recorded, and it stops where the vector cannot be grown. A program
is compared with what it does to a list without a capacity: where the vector has
room for the list in the end, it has had room for it all along, so it has kept
its capacity, and its allocation, at every step.
-/

namespace Tiberius.Writing

open Machine

variable {β : Type} {limit : ℕ}

theorem WriteCursor.write_length (cursor : WriteCursor β) (blank : β) (symbols : List β) :
    (cursor.write blank symbols).bytes.length =
      max cursor.bytes.length (cursor.pos + symbols.length) := by
  simp only [write, List.length_append, List.length_take, List.length_drop, List.length_replicate]
  omega

theorem WriteCursor.mapRange_length (cursor : WriteCursor β) (f : β → β) (start stop : ℕ) :
    cursor.bytes.length ≤ (cursor.mapRange f start stop).bytes.length := by
  simp only [mapRange, List.length_append, List.length_take, List.length_drop, List.length_map]
  omega

/-- A vector and the position at which it is written. -/
structure VecCursor (β : Type) (limit : ℕ) where
  vec : Vec β limit
  pos : ℕ

namespace VecCursor

def cursor (self : VecCursor β limit) : WriteCursor β where
  bytes := self.vec.elems
  pos := self.pos

def seek (self : VecCursor β limit) (pos : ℕ) : VecCursor β limit := { self with pos := pos }

theorem write_length_le (self : VecCursor β limit) (blank : β) (symbols : List β) :
    (self.cursor.write blank symbols).bytes.length ≤
      max self.vec.capacity (self.pos + symbols.length) := by
  have hin : self.cursor.bytes.length ≤ self.vec.capacity := self.vec.length_le
  rw [WriteCursor.write_length]
  change max _ (self.pos + symbols.length) ≤ _
  omega

/-- Write into the vector, which moves if it has to. -/
def write (self : VecCursor β limit) (blank : β) (symbols : List β) :
    Option (VecCursor β limit) :=
  (self.vec.hold (self.pos + symbols.length) (self.cursor.write blank symbols).bytes
    (self.write_length_le blank symbols)).map fun vec =>
      { vec, pos := self.pos + symbols.length }

/-- Writing within the capacity leaves the vector where it is. -/
theorem write_of_le (self : VecCursor β limit) (blank : β) {symbols : List β}
    (hroom : (self.cursor.write blank symbols).bytes.length ≤ self.vec.capacity) :
    ∃ next, self.write blank symbols = some next ∧
      next.cursor = self.cursor.write blank symbols ∧
      next.vec.capacity = self.vec.capacity := by
  have hneeded : self.pos + symbols.length ≤ self.vec.capacity := by
    rw [WriteCursor.write_length] at hroom
    exact Nat.le_trans (Nat.le_max_right _ _) hroom
  obtain ⟨held, hheld, hcapacity, helems⟩ :=
    Vec.hold_some (self.write_length_le blank symbols) (growth_of_le hneeded)
  refine ⟨{ vec := held, pos := self.pos + symbols.length }, ?_, ?_, hcapacity⟩
  · rw [write, hheld, Option.map_some]
  · rw [cursor, helems]
    rfl

/-- Change the elements of a range where they are. A range that ends in front of its
start would repeat some of them; no more are kept than the vector has room for. -/
def mapRange (self : VecCursor β limit) (f : β → β) (start stop : ℕ) : VecCursor β limit where
  vec :=
    { elems := (self.cursor.mapRange f start stop).bytes.take self.vec.capacity
      capacity := self.vec.capacity
      length_le := by
        rw [List.length_take]
        exact Nat.min_le_left _ _
      capacity_le := self.vec.capacity_le }
  pos := self.pos

theorem mapRange_of_le (self : VecCursor β limit) (f : β → β) {start stop : ℕ}
    (hroom : (self.cursor.mapRange f start stop).bytes.length ≤ self.vec.capacity) :
    (self.mapRange f start stop).cursor = self.cursor.mapRange f start stop := by
  change WriteCursor.mk ((self.cursor.mapRange f start stop).bytes.take self.vec.capacity) _ = _
  rw [List.take_of_length_le hroom]
  rfl

end VecCursor

/-- A program with the states it goes through. It has panicked if it has no value. -/
def Recorded (σ α : Type) : Type := σ → List σ × Option (α × σ)

namespace Recorded

variable {σ α γ : Type}

def ret (value : α) : Recorded σ α := fun state => ([], some (value, state))

def bind (program : Recorded σ α) (next : α → Recorded σ γ) : Recorded σ γ := fun state =>
  match program state with
  | (record, none) => (record, none)
  | (record, some (value, state)) =>
    let (more, result) := next value state
    (record ++ more, result)

instance : Monad (Recorded σ) where
  pure := ret
  bind := bind

def abort : Recorded σ α := fun _ => ([], none)

/-- A step that is recorded. -/
def step (f : σ → Option σ) : Recorded σ Unit := fun state =>
  match f state with
  | none => ([], none)
  | some state => ([state], some ((), state))

/-- A value that is read off the state. -/
def read (f : σ → α) : Recorded σ α := fun state => ([], some (f state, state))

@[simp] theorem bind_eq (program : Recorded σ α) (next : α → Recorded σ γ) :
    program >>= next = program.bind next := rfl

@[simp] theorem pure_eq (value : α) : (pure value : Recorded σ α) = ret value := rfl

def write (blank : β) (symbols : List β) : Recorded (VecCursor β limit) Unit :=
  step fun self => self.write blank symbols

def seek (pos : ℕ) : Recorded (VecCursor β limit) Unit := step fun self => some (self.seek pos)

def mapRange (f : β → β) (start stop : ℕ) : Recorded (VecCursor β limit) Unit :=
  step fun self => some (self.mapRange f start stop)

def position : Recorded (VecCursor β limit) ℕ := read VecCursor.pos

def length : Recorded (VecCursor β limit) ℕ := read fun self => self.vec.elems.length

def capacity : Recorded (VecCursor β limit) ℕ := read fun self => self.vec.capacity

/-- The program does to a vector that has room what a function does to a list, and
keeps the capacity at every step. -/
structure Does (program : Recorded (VecCursor β limit) α)
    (f : WriteCursor β → α × WriteCursor β) : Prop where
  grows : ∀ cursor, cursor.bytes.length ≤ (f cursor).2.bytes.length
  keeps : ∀ start : VecCursor β limit, (f start.cursor).2.bytes.length ≤ start.vec.capacity →
    ∃ record last, program start = (record, some ((f start.cursor).1, last)) ∧
      last.cursor = (f start.cursor).2 ∧ last.vec.capacity = start.vec.capacity ∧
      ∀ state ∈ record, state.vec.capacity = start.vec.capacity ∧
        state.vec.elems.length ≤ (f start.cursor).2.bytes.length

variable {program : Recorded (VecCursor β limit) α} {f : WriteCursor β → α × WriteCursor β}

/-- The same function in another form. -/
theorem Does.congr {g : WriteCursor β → α × WriteCursor β} (hdoes : Does program f)
    (hsame : ∀ cursor, f cursor = g cursor) : Does program g := by
  rw [← funext hsame]
  exact hdoes

theorem does_ret (value : α) :
    Does (ret value : Recorded (VecCursor β limit) α) fun cursor => (value, cursor) where
  grows := fun _ => Nat.le_refl _
  keeps := fun start _ => ⟨[], start, rfl, rfl, rfl,
    fun _ hstate => absurd hstate List.not_mem_nil⟩

theorem does_read {get : VecCursor β limit → α} {f : WriteCursor β → α}
    (hget : ∀ state, get state = f state.cursor) :
    Does (read get) fun cursor => (f cursor, cursor) where
  grows := fun _ => Nat.le_refl _
  keeps := by
    intro start _
    refine ⟨[], start, ?_, rfl, rfl, fun _ hstate => absurd hstate List.not_mem_nil⟩
    rw [read, hget]

theorem does_step {next : VecCursor β limit → Option (VecCursor β limit)}
    {f : WriteCursor β → WriteCursor β}
    (hgrows : ∀ cursor, cursor.bytes.length ≤ (f cursor).bytes.length)
    (hnext : ∀ state : VecCursor β limit, (f state.cursor).bytes.length ≤ state.vec.capacity →
      ∃ state', next state = some state' ∧ state'.cursor = f state.cursor ∧
        state'.vec.capacity = state.vec.capacity) :
    Does (step next) fun cursor => ((), f cursor) where
  grows := hgrows
  keeps := by
    intro start hroom
    obtain ⟨last, hlast, hcursor, hcapacity⟩ := hnext start hroom
    refine ⟨[last], last, ?_, hcursor, hcapacity, ?_⟩
    · rw [step, hlast]
    · intro state hstate
      obtain rfl := List.mem_singleton.mp hstate
      exact ⟨hcapacity, Nat.le_of_eq (congrArg (fun cursor => cursor.bytes.length) hcursor)⟩

/-- One program behind the other: what is written in the end bounds what has been
written in between. -/
theorem does_bind {next : α → Recorded (VecCursor β limit) γ}
    {g : α → WriteCursor β → γ × WriteCursor β} (hprogram : Does program f)
    (hnext : ∀ value, Does (next value) (g value)) :
    Does (program.bind next) fun cursor => g (f cursor).1 (f cursor).2 where
  grows := fun cursor => Nat.le_trans (hprogram.grows cursor) ((hnext _).grows _)
  keeps := by
    intro start hroom
    have hlater := (hnext (f start.cursor).1).grows (f start.cursor).2
    obtain ⟨first, middle, hfirst, hcursor, hcapacity, hrecord⟩ :=
      hprogram.keeps start (Nat.le_trans hlater hroom)
    rw [← hcursor] at hroom hlater ⊢
    obtain ⟨second, last, hsecond, hend, hkept, hrest⟩ :=
      (hnext (f start.cursor).1).keeps middle (by rw [hcapacity]; exact hroom)
    refine ⟨first ++ second, last, ?_, hend, hkept.trans hcapacity, ?_⟩
    · simp only [bind, hfirst, hsecond]
    · intro state hstate
      cases List.mem_append.mp hstate with
      | inl hbefore =>
        obtain ⟨hsame, hlength⟩ := hrecord state hbefore
        exact ⟨hsame, Nat.le_trans (hcursor ▸ hlength) hlater⟩
      | inr hbehind =>
        obtain ⟨hsame, hlength⟩ := hrest state hbehind
        exact ⟨hsame.trans hcapacity, hlength⟩

theorem does_write (blank : β) (symbols : List β) :
    Does (write blank symbols : Recorded (VecCursor β limit) Unit)
      fun cursor => ((), cursor.write blank symbols) := by
  refine does_step ?_ fun state hroom => state.write_of_le blank hroom
  intro cursor
  rw [WriteCursor.write_length]
  exact Nat.le_max_left _ _

theorem does_seek (pos : ℕ) :
    Does (seek pos : Recorded (VecCursor β limit) Unit) fun cursor => ((), cursor.seek pos) :=
  does_step (fun _ => Nat.le_refl _) fun state _ => ⟨state.seek pos, rfl, rfl, rfl⟩

theorem does_mapRange (f : β → β) (start stop : ℕ) :
    Does (mapRange f start stop : Recorded (VecCursor β limit) Unit)
      fun cursor => ((), cursor.mapRange f start stop) :=
  does_step (fun cursor => cursor.mapRange_length f start stop)
    fun state hroom => ⟨_, rfl, state.mapRange_of_le f hroom, rfl⟩

theorem does_position :
    Does (position : Recorded (VecCursor β limit) ℕ) fun cursor => (cursor.pos, cursor) :=
  does_read fun _ => rfl

theorem does_length :
    Does (length : Recorded (VecCursor β limit) ℕ)
      fun cursor => (cursor.bytes.length, cursor) :=
  does_read fun _ => rfl

end Recorded

end Tiberius.Writing
