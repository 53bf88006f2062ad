import Mathlib.Data.List.Basic
import Tiberius.Bytes

/-!
UTF-8 text and its lossy reading. The bytes of a text are those of its
characters; a lossy reading takes the longest well-formed characters from the
front and puts U+FFFD for every longest piece that begins none.
-/

namespace Tiberius

/-- `str::as_bytes`. -/
def asBytes (text : String) : List UInt8 := text.toList.flatMap String.utf8EncodeChar

/-- The number of bytes of the character that a byte begins, zero if it begins
none. -/
def utf8CharWidth (first : UInt8) : ℕ :=
  if first.toNat < 0x80 then 1
  else if 0xC2 ≤ first.toNat ∧ first.toNat ≤ 0xDF then 2
  else if 0xE0 ≤ first.toNat ∧ first.toNat ≤ 0xEF then 3
  else if 0xF0 ≤ first.toNat ∧ first.toNat ≤ 0xF4 then 4
  else 0

def isContinuation (byte : UInt8) : Prop := 0x80 ≤ byte.toNat ∧ byte.toNat ≤ 0xBF

instance (byte : UInt8) : Decidable (isContinuation byte) :=
  inferInstanceAs (Decidable (_ ∧ _))

/-- Whether a byte may stand second in a character of three or four bytes: no
overlong forms, no surrogates, nothing above U+10FFFF. -/
def mayFollow (first second : UInt8) : Prop :=
  isContinuation second ∧ (first.toNat = 0xE0 → 0xA0 ≤ second.toNat) ∧
    (first.toNat = 0xED → second.toNat ≤ 0x9F) ∧ (first.toNat = 0xF0 → 0x90 ≤ second.toNat) ∧
    (first.toNat = 0xF4 → second.toNat ≤ 0x8F)

instance (first second : UInt8) : Decidable (mayFollow first second) :=
  inferInstanceAs (Decidable (_ ∧ _))

/-- The number that the low-order `bits` of the first byte and six bits of each
byte behind it make up. -/
def assemble (bits : ℕ) (first : UInt8) (behind : List UInt8) : ℕ :=
  behind.foldl (fun value byte => value * 64 + byte.toNat % 64) (first.toNat % 2 ^ bits)

/-- The character that a byte and the bytes behind it begin with, if they do, and
how many of the bytes behind belong to it or to the piece that is given up. -/
def utf8Step (first : UInt8) (behind : List UInt8) : Option Char × ℕ :=
  match utf8CharWidth first, behind with
  | 1, _ => (some (scalar first.toNat), 0)
  | 2, second :: _ =>
    if isContinuation second then (some (scalar (assemble 5 first [second])), 1) else (none, 0)
  | 3, second :: behind =>
    if mayFollow first second then
      match behind with
      | third :: _ =>
        if isContinuation third then (some (scalar (assemble 4 first [second, third])), 2)
        else (none, 1)
      | [] => (none, 1)
    else (none, 0)
  | 4, second :: behind =>
    if mayFollow first second then
      match behind with
      | third :: behind =>
        if isContinuation third then
          match behind with
          | fourth :: _ =>
            if isContinuation fourth then
              (some (scalar (assemble 3 first [second, third, fourth])), 3)
            else (none, 2)
          | [] => (none, 2)
        else (none, 1)
      | [] => (none, 1)
    else (none, 0)
  | _, _ => (none, 0)

/-- The characters of a lossy reading, behind bytes that have been dealt with. -/
def lossyChars : ℕ → List UInt8 → List Char
  | _, [] => []
  | skipped + 1, _ :: rest => lossyChars skipped rest
  | 0, first :: rest =>
    (utf8Step first rest).1.getD '\uFFFD' :: lossyChars (utf8Step first rest).2 rest

/-- `String::from_utf8_lossy`. -/
def fromUtf8Lossy (bytes : List UInt8) : String := String.ofList (lossyChars 0 bytes)

theorem utf8Step_two {first second : UInt8} {rest : List UInt8}
    (hfirst : 0xC2 ≤ first.toNat ∧ first.toNat ≤ 0xDF) (hsecond : isContinuation second) :
    utf8Step first (second :: rest) = (some (scalar (assemble 5 first [second])), 1) := by
  have hwidth : utf8CharWidth first = 2 := by
    rw [utf8CharWidth, if_neg (by omega), if_pos hfirst]
  simp only [utf8Step, hwidth, if_pos hsecond]

theorem utf8Step_three {first second third : UInt8} {rest : List UInt8}
    (hfirst : 0xE0 ≤ first.toNat ∧ first.toNat ≤ 0xEF) (hsecond : mayFollow first second)
    (hthird : isContinuation third) :
    utf8Step first (second :: third :: rest) =
      (some (scalar (assemble 4 first [second, third])), 2) := by
  have hwidth : utf8CharWidth first = 3 := by
    rw [utf8CharWidth, if_neg (by omega), if_neg (by omega), if_pos hfirst]
  simp only [utf8Step, hwidth, if_pos hsecond, if_pos hthird]

theorem utf8Step_four {first second third fourth : UInt8} {rest : List UInt8}
    (hfirst : 0xF0 ≤ first.toNat ∧ first.toNat ≤ 0xF4) (hsecond : mayFollow first second)
    (hthird : isContinuation third) (hfourth : isContinuation fourth) :
    utf8Step first (second :: third :: fourth :: rest) =
      (some (scalar (assemble 3 first [second, third, fourth])), 3) := by
  have hwidth : utf8CharWidth first = 4 := by
    rw [utf8CharWidth, if_neg (by omega), if_neg (by omega), if_neg (by omega), if_pos hfirst]
  simp only [utf8Step, hwidth, if_pos hsecond, if_pos hthird, if_pos hfourth]

theorem toNat_ofNat_byte {value : ℕ} (hvalue : value < 256) : (UInt8.ofNat value).toNat = value :=
  UInt8.toNat_ofNat_of_lt' hvalue

/-- The bytes of a character, whatever stands behind them, are read as it. -/
theorem utf8Step_encode (c : Char) (rest : List UInt8) :
    ∃ first behind, String.utf8EncodeChar c = first :: behind ∧
      utf8Step first (behind ++ rest) = (some c, behind.length) := by
  have hscalar : scalar c.val.toNat = c := Char.ofNat_toNat c
  have hvalid : c.val.toNat < 0xD800 ∨ 0xDFFF < c.val.toNat ∧ c.val.toNat < 0x110000 := c.valid
  unfold String.utf8EncodeChar
  generalize c.val.toNat = v at *
  simp only
  split
  next hone =>
    refine ⟨_, [], rfl, ?_⟩
    have hfirst : (UInt8.ofNat v).toNat = v := toNat_ofNat_byte (by omega)
    have hwidth : utf8CharWidth (UInt8.ofNat v) = 1 := by
      rw [utf8CharWidth, hfirst, if_pos (by omega)]
    simp only [utf8Step, hwidth, hfirst, hscalar, List.length_nil]
  next hone =>
    split
    next htwo =>
      refine ⟨_, [_], rfl, ?_⟩
      have hfirst : (UInt8.ofNat (v / 64 % 0x20 + 0xc0)).toNat = v / 64 % 0x20 + 0xc0 :=
        toNat_ofNat_byte (by omega)
      have hsecond : (UInt8.ofNat (v % 0x40 + 0x80)).toNat = v % 0x40 + 0x80 :=
        toNat_ofNat_byte (by omega)
      have hvalue : assemble 5 (UInt8.ofNat (v / 64 % 0x20 + 0xc0))
          [UInt8.ofNat (v % 0x40 + 0x80)] = v := by
        simp only [assemble, List.foldl_cons, List.foldl_nil, hfirst, hsecond]
        omega
      rw [List.cons_append, utf8Step_two, hvalue, hscalar]
      · rfl
      · omega
      · unfold isContinuation
        omega
    next htwo =>
      have hlast : (UInt8.ofNat (v % 0x40 + 0x80)).toNat = v % 0x40 + 0x80 :=
        toNat_ofNat_byte (by omega)
      have hmiddle : (UInt8.ofNat (v / 64 % 0x40 + 0x80)).toNat = v / 64 % 0x40 + 0x80 :=
        toNat_ofNat_byte (by omega)
      split
      next hthree =>
        refine ⟨_, [_, _], rfl, ?_⟩
        have hfirst : (UInt8.ofNat (v / 4096 % 0x10 + 0xe0)).toNat = v / 4096 % 0x10 + 0xe0 :=
          toNat_ofNat_byte (by omega)
        have hvalue : assemble 4 (UInt8.ofNat (v / 4096 % 0x10 + 0xe0))
            [UInt8.ofNat (v / 64 % 0x40 + 0x80), UInt8.ofNat (v % 0x40 + 0x80)] = v := by
          simp only [assemble, List.foldl_cons, List.foldl_nil, hfirst, hmiddle, hlast]
          omega
        rw [List.cons_append, List.cons_append, utf8Step_three, hvalue, hscalar]
        · rfl
        · omega
        · unfold mayFollow isContinuation
          omega
        · unfold isContinuation
          omega
      next hthree =>
        refine ⟨_, [_, _, _], rfl, ?_⟩
        have hfirst : (UInt8.ofNat (v / 262144 % 0x08 + 0xf0)).toNat =
            v / 262144 % 0x08 + 0xf0 := toNat_ofNat_byte (by omega)
        have hsecond : (UInt8.ofNat (v / 4096 % 0x40 + 0x80)).toNat = v / 4096 % 0x40 + 0x80 :=
          toNat_ofNat_byte (by omega)
        have hvalue : assemble 3 (UInt8.ofNat (v / 262144 % 0x08 + 0xf0))
            [UInt8.ofNat (v / 4096 % 0x40 + 0x80), UInt8.ofNat (v / 64 % 0x40 + 0x80),
              UInt8.ofNat (v % 0x40 + 0x80)] = v := by
          simp only [assemble, List.foldl_cons, List.foldl_nil, hfirst, hsecond, hmiddle, hlast]
          omega
        rw [List.cons_append, List.cons_append, List.cons_append, utf8Step_four, hvalue, hscalar]
        · rfl
        · omega
        · unfold mayFollow isContinuation
          omega
        · unfold isContinuation
          omega
        · unfold isContinuation
          omega

theorem lossyChars_skip (behind rest : List UInt8) :
    lossyChars behind.length (behind ++ rest) = lossyChars 0 rest := by
  induction behind with
  | nil => rfl
  | cons byte behind ih => exact ih

theorem lossyChars_encode (text : List Char) :
    lossyChars 0 (text.flatMap String.utf8EncodeChar) = text := by
  induction text with
  | nil => rfl
  | cons c text ih =>
    obtain ⟨first, behind, hbytes, hstep⟩ :=
      utf8Step_encode c (text.flatMap String.utf8EncodeChar)
    rw [List.flatMap_cons, hbytes, List.cons_append, lossyChars, hstep]
    simp only [Option.getD_some, lossyChars_skip, ih]

/-- A text is read back from its bytes. -/
theorem fromUtf8Lossy_asBytes (text : String) : fromUtf8Lossy (asBytes text) = text := by
  rw [fromUtf8Lossy, asBytes, lossyChars_encode, String.ofList_toList]

-- a character that breaks off is one replacement, and the byte behind it is kept
example : fromUtf8Lossy [0xE2, 0x82, 0x41, 0xFF] = "\uFFFDA\uFFFD" := by decide

/-- A zero byte is the character NUL. -/
theorem eq_nul_of_zero_mem {c : Char} (hzero : 0 ∈ String.utf8EncodeChar c) : c = '\x00' := by
  have hscalar : scalar c.val.toNat = c := Char.ofNat_toNat c
  have hvalid : c.val.toNat < 0xD800 ∨ 0xDFFF < c.val.toNat ∧ c.val.toNat < 0x110000 := c.valid
  unfold String.utf8EncodeChar at hzero
  generalize c.val.toNat = v at *
  have hbyte : ∀ value, (0 : UInt8) = UInt8.ofNat value → value % 256 = 0 := by
    intro value hvalue
    have hnat := congrArg UInt8.toNat hvalue
    rw [UInt8.toNat_ofNat'] at hnat
    exact hnat.symm
  -- every byte of a longer form has its highest bit set
  have hlong : ∀ value, 0x80 ≤ value → value < 256 → (0 : UInt8) ≠ UInt8.ofNat value := by
    intro value hlow hhigh hvalue
    have := hbyte value hvalue
    omega
  simp only at hzero
  split at hzero
  · have hzero := hbyte _ (List.mem_singleton.mp hzero)
    obtain rfl : v = 0 := by omega
    exact hscalar.symm
  · split at hzero
    · simp only [List.mem_cons, List.not_mem_nil, or_false] at hzero
      rcases hzero with hzero | hzero
      · exact absurd hzero (hlong _ (by omega) (by omega))
      · exact absurd hzero (hlong _ (by omega) (by omega))
    · split at hzero
      · simp only [List.mem_cons, List.not_mem_nil, or_false] at hzero
        rcases hzero with hzero | hzero | hzero
        · exact absurd hzero (hlong _ (by omega) (by omega))
        · exact absurd hzero (hlong _ (by omega) (by omega))
        · exact absurd hzero (hlong _ (by omega) (by omega))
      · simp only [List.mem_cons, List.not_mem_nil, or_false] at hzero
        rcases hzero with hzero | hzero | hzero | hzero
        · exact absurd hzero (hlong _ (by omega) (by omega))
        · exact absurd hzero (hlong _ (by omega) (by omega))
        · exact absurd hzero (hlong _ (by omega) (by omega))
        · exact absurd hzero (hlong _ (by omega) (by omega))

theorem zero_notMem_asBytes {text : String} (hnul : '\x00' ∉ text.toList) :
    0 ∉ asBytes text := by
  intro hzero
  obtain ⟨c, hc, hzero⟩ := List.mem_flatMap.mp hzero
  rw [eq_nul_of_zero_mem hzero] at hc
  exact hnul hc

theorem asBytes_ne_nil {text : String} (hne : text ≠ "") : asBytes text ≠ [] := by
  intro hnil
  have hread := fromUtf8Lossy_asBytes text
  rw [hnil] at hread
  exact hne hread.symm

end Tiberius
