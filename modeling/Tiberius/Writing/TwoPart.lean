import Mathlib.Data.List.Basic

/-!
A cursor over a growing list, and the buffers that are written with it in two
parts: a table of a known size that is filled from the front, and data behind
it that is added while the table is still incomplete. Whatever the order of the
two kinds of writes, the buffer is the table followed by the data.
-/

namespace Tiberius.Writing

variable {β : Type}

/-- A list and the position at which it is written. -/
structure WriteCursor (β : Type) where
  bytes : List β
  pos : ℕ

namespace WriteCursor

def seek (cursor : WriteCursor β) (pos : ℕ) : WriteCursor β := { cursor with pos := pos }

/-- Write over what is there and beyond; a gap in front of the position is filled. -/
def write (cursor : WriteCursor β) (blank : β) (symbols : List β) : WriteCursor β :=
  let padded := cursor.bytes ++ List.replicate (cursor.pos - cursor.bytes.length) blank
  { bytes := padded.take cursor.pos ++ symbols ++ padded.drop (cursor.pos + symbols.length)
    pos := cursor.pos + symbols.length }

/-- Change the symbols of a range where they are. -/
def mapRange (cursor : WriteCursor β) (f : β → β) (start stop : ℕ) : WriteCursor β :=
  { cursor with
    bytes := cursor.bytes.take start ++ ((cursor.bytes.take stop).drop start).map f ++
      cursor.bytes.drop stop }

@[simp] theorem write_pos (cursor : WriteCursor β) (blank : β) (symbols : List β) :
    (cursor.write blank symbols).pos = cursor.pos + symbols.length := rfl

/-- Writing over a part of the list. -/
theorem write_over (blank : β) (front old symbols behind : List β)
    (hlength : old.length = symbols.length) :
    write { bytes := front ++ old ++ behind, pos := front.length } blank symbols =
      { bytes := front ++ symbols ++ behind, pos := front.length + symbols.length } := by
  have hgap : front.length - (front ++ old ++ behind).length = 0 := by
    rw [List.length_append, List.length_append]
    omega
  have htake : (front ++ old ++ behind).take front.length = front := by
    rw [List.append_assoc, List.take_left]
  have hdrop : (front ++ old ++ behind).drop (front.length + symbols.length) = behind := by
    rw [← hlength, ← List.length_append, List.drop_left]
  simp only [write, hgap, List.replicate_zero, List.append_nil, htake, hdrop]

/-- Writing at the end of the list, or beyond it. -/
theorem write_end (blank : β) (bytes symbols : List β) (gap : ℕ) :
    write { bytes := bytes, pos := bytes.length + gap } blank symbols =
      { bytes := bytes ++ List.replicate gap blank ++ symbols
        pos := bytes.length + gap + symbols.length } := by
  have hlength : (bytes ++ List.replicate gap blank).length = bytes.length + gap := by
    rw [List.length_append, List.length_replicate]
  have htake : (bytes ++ List.replicate gap blank).take (bytes.length + gap) =
      bytes ++ List.replicate gap blank := List.take_of_length_le (Nat.le_of_eq hlength)
  have hdrop : (bytes ++ List.replicate gap blank).drop (bytes.length + gap + symbols.length) =
      [] := List.drop_of_length_le (by omega)
  simp only [write, Nat.add_sub_cancel_left, htake, hdrop, List.append_nil]

/-- A cursor at the end of its list. -/
def atEnd (bytes : List β) : WriteCursor β := { bytes := bytes, pos := bytes.length }

@[simp] theorem atEnd_write (blank : β) (bytes symbols : List β) :
    (atEnd bytes).write blank symbols = atEnd (bytes ++ symbols) := by
  have hwrite := write_end blank bytes symbols 0
  rw [Nat.add_zero, List.replicate_zero, List.append_nil, ← List.length_append] at hwrite
  exact hwrite

theorem mapRange_end (f : β → β) (front symbols : List β) (pos : ℕ) :
    mapRange { bytes := front ++ symbols, pos := pos } f front.length
        (front.length + symbols.length) =
      { bytes := front ++ symbols.map f, pos := pos } := by
  have hstop : (front ++ symbols).length = front.length + symbols.length := List.length_append
  simp only [mapRange, ← hstop, List.take_left, List.take_length, List.drop_left, List.drop_length,
    List.append_nil]

theorem mapRange_none (cursor : WriteCursor β) (f : β → β) (start : ℕ) :
    cursor.mapRange f start start = cursor := by
  have hnone : (cursor.bytes.take start).drop start = [] :=
    List.drop_of_length_le (List.length_take_le start cursor.bytes)
  simp only [mapRange, hnone, List.map_nil, List.append_nil, List.take_append_drop]

end WriteCursor

/-- A table of `room` symbols whose front has been written, and data behind it. As
long as there are no data the list may end with the front. -/
structure TwoPart (blank : β) (room : ℕ) (cursor : WriteCursor β) (front data : List β) :
    Prop where
  pos : cursor.pos = front.length
  fits : front.length ≤ room
  bytes : cursor.bytes = front ∧ data = [] ∨
    cursor.bytes = front ++ List.replicate (room - front.length) blank ++ data

namespace TwoPart

open WriteCursor

variable {blank : β} {room : ℕ} {cursor : WriteCursor β} {front data : List β}

theorem write_front (hparts : TwoPart blank room cursor front data) (symbols : List β)
    (hfits : front.length + symbols.length ≤ room) :
    TwoPart blank room (cursor.write blank symbols) (front ++ symbols) data := by
  obtain ⟨bytes, pos⟩ := cursor
  obtain ⟨hpos, -, hbytes⟩ := hparts
  simp only at hpos hbytes
  subst hpos
  have hlength : (front ++ symbols).length = front.length + symbols.length := List.length_append
  rcases hbytes with ⟨rfl, rfl⟩ | rfl
  · rw [show write { bytes := bytes, pos := bytes.length } blank symbols = atEnd (bytes ++ symbols)
      from atEnd_write blank bytes symbols]
    exact ⟨rfl, hlength ▸ hfits, .inl ⟨rfl, rfl⟩⟩
  · have hsplit : List.replicate (room - front.length) blank =
        List.replicate symbols.length blank ++
          List.replicate (room - (front ++ symbols).length) blank := by
      rw [List.replicate_append_replicate]
      congr 1
      omega
    have hwrite := WriteCursor.write_over blank front (List.replicate symbols.length blank) symbols
      (List.replicate (room - (front ++ symbols).length) blank ++ data) List.length_replicate
    rw [hsplit, ← List.append_assoc, List.append_assoc, hwrite]
    refine ⟨hlength.symm, hlength ▸ hfits, .inr ?_⟩
    rw [List.append_assoc (front ++ symbols)]

theorem write_fronts (pieces : List (List β)) (hparts : TwoPart blank room cursor front data)
    (hfits : front.length + pieces.flatten.length ≤ room) :
    TwoPart blank room (pieces.foldl (fun cursor symbols => cursor.write blank symbols) cursor)
      (front ++ pieces.flatten) data := by
  induction pieces generalizing cursor front with
  | nil =>
    rw [List.flatten_nil, List.append_nil]
    exact hparts
  | cons symbols pieces ih =>
    rw [List.flatten_cons, List.length_append] at hfits
    have hwrite := hparts.write_front symbols (by omega)
    rw [List.flatten_cons, ← List.append_assoc]
    refine ih hwrite ?_
    rw [List.length_append]
    omega

theorem write_data (hparts : TwoPart blank room cursor front data) (symbols : List β) :
    TwoPart blank room (((cursor.seek (room + data.length)).write blank symbols).seek cursor.pos)
      front (data ++ symbols) := by
  obtain ⟨bytes, pos⟩ := cursor
  obtain ⟨hpos, hfits, hbytes⟩ := hparts
  refine ⟨hpos, hfits, .inr ?_⟩
  simp only at hbytes
  rcases hbytes with ⟨rfl, rfl⟩ | rfl
  · have hwrite := WriteCursor.write_end blank bytes symbols (room - bytes.length)
    rw [Nat.add_sub_cancel' hfits] at hwrite
    simp only [WriteCursor.seek, List.length_nil, Nat.add_zero, hwrite, List.nil_append]
  · have hwrite := WriteCursor.write_end blank
      (front ++ List.replicate (room - front.length) blank ++ data) symbols 0
    have hlength : (front ++ List.replicate (room - front.length) blank ++ data).length + 0 =
        room + data.length := by
      rw [List.length_append, List.length_append, List.length_replicate]
      omega
    rw [hlength, List.replicate_zero, List.append_nil] at hwrite
    simp only [WriteCursor.seek, hwrite]
    rw [List.append_assoc]

/-- Writing on where the data end. -/
theorem append_data (hparts : TwoPart blank room (cursor.seek front.length) front data)
    (hpos : cursor.pos = room + data.length) (symbols : List β) :
    TwoPart blank room ((cursor.write blank symbols).seek front.length) front (data ++ symbols) := by
  have hwrite := hparts.write_data symbols
  have hcursor : (cursor.seek front.length).seek (room + data.length) = cursor := by
    rw [← hpos]
    rfl
  rwa [hcursor] at hwrite

/-- A change of the last symbols of the data. -/
theorem mapRange_data {symbols : List β} (f : β → β)
    (hparts : TwoPart blank room cursor front (data ++ symbols)) :
    TwoPart blank room
      (cursor.mapRange f (room + data.length) (room + data.length + symbols.length))
      front (data ++ symbols.map f) := by
  by_cases hnone : symbols = []
  · subst hnone
    rw [List.length_nil, Nat.add_zero, WriteCursor.mapRange_none]
    exact hparts
  · obtain ⟨bytes, pos⟩ := cursor
    obtain ⟨hpos, hfits, hbytes⟩ := hparts
    simp only at hbytes
    rcases hbytes with ⟨-, hnil⟩ | rfl
    · exact absurd (List.append_eq_nil_iff.mp hnil).2 hnone
    · have hlength : (front ++ List.replicate (room - front.length) blank ++ data).length =
          room + data.length := by
        rw [List.length_append, List.length_append, List.length_replicate]
        omega
      have hmap := WriteCursor.mapRange_end f
        (front ++ List.replicate (room - front.length) blank ++ data) symbols pos
      rw [hlength] at hmap
      rw [← List.append_assoc, hmap]
      exact ⟨hpos, hfits, .inr (List.append_assoc _ _ _)⟩

/-- A table that is complete. -/
theorem bytes_eq (hparts : TwoPart blank room cursor front data) (hfull : front.length = room) :
    cursor.bytes = front ++ data := by
  rcases hparts.bytes with ⟨hbytes, rfl⟩ | hbytes
  · rw [hbytes, List.append_nil]
  · rw [hbytes, hfull, Nat.sub_self, List.replicate_zero, List.append_nil]

end TwoPart

end Tiberius.Writing
