import Mathlib.Algebra.Group.Int.Defs
import Mathlib.Algebra.Group.Nat.Defs
import Tiberius.Error

/-!
Byte-level readings of machine integers and text: little- and big-endian
integers, UTF-16 text strict and lossy, UTF-8, and the parsing of unsigned
decimal text as the standard library does it, digit by digit with a sign.
-/

namespace Tiberius

/-- The value of bytes whose first one is the least significant. -/
def leNat : List UInt8 → ℕ
  | [] => 0
  | byte :: rest => byte.toNat + 256 * leNat rest

/-- The value of bytes whose first one is the most significant. -/
def beNat (bytes : List UInt8) : ℕ := leNat bytes.reverse

/-- The `width` low-order bytes of a number, least significant first. -/
def toLe : ℕ → ℕ → List UInt8
  | 0, _ => []
  | width + 1, value => UInt8.ofNat value :: toLe width (value / 256)

def toBe (width value : ℕ) : List UInt8 := (toLe width value).reverse

@[simp] theorem toLe_length (width value : ℕ) : (toLe width value).length = width := by
  induction width generalizing value with
  | zero => rfl
  | succ width ih => simp only [toLe, List.length_cons, ih]

@[simp] theorem toBe_length (width value : ℕ) : (toBe width value).length = width := by
  simp only [toBe, List.length_reverse, toLe_length]

theorem leNat_toLe (width value : ℕ) : leNat (toLe width value) = value % 256 ^ width := by
  induction width generalizing value with
  | zero => simp only [toLe, leNat, Nat.pow_zero, Nat.mod_one]
  | succ width ih =>
    have hpow : 256 ^ (width + 1) = 256 * 256 ^ width := Nat.pow_succ'
    simp only [toLe, leNat, ih, UInt8.toNat_ofNat', Nat.reducePow]
    rw [hpow, Nat.mod_mul]

theorem beNat_toBe (width value : ℕ) : beNat (toBe width value) = value % 256 ^ width := by
  simp only [beNat, toBe, List.reverse_reverse, leNat_toLe]

def getU16Le (bytes : List UInt8) : UInt16 := UInt16.ofNat (leNat bytes)

def getU32Le (bytes : List UInt8) : UInt32 := UInt32.ofNat (leNat bytes)

def getU64Le (bytes : List UInt8) : UInt64 := UInt64.ofNat (leNat bytes)

/-- The scalar value of a unit that is no surrogate, or of a surrogate pair. -/
def scalar (code : ℕ) : Char := Char.ofNat code

def isHighSurrogate (unit : UInt16) : Bool := 0xD800 ≤ unit && unit < 0xDC00

def isLowSurrogate (unit : UInt16) : Bool := 0xDC00 ≤ unit && unit < 0xE000

def surrogatePair (high low : UInt16) : Char :=
  scalar (0x10000 + (high.toNat - 0xD800) * 0x400 + (low.toNat - 0xDC00))

/-- Iterating over UTF-16 text: each scalar, or `none` for an unpaired
surrogate. A unit after an unpaired high surrogate is looked at again. -/
def decodeUtf16 : List UInt16 → List (Option Char)
  | [] => []
  | [unit] =>
    if isHighSurrogate unit || isLowSurrogate unit then [none] else [some (scalar unit.toNat)]
  | unit :: next :: rest =>
    if isHighSurrogate unit then
      if isLowSurrogate next then some (surrogatePair unit next) :: decodeUtf16 rest
      else none :: decodeUtf16 (next :: rest)
    else if isLowSurrogate unit then none :: decodeUtf16 (next :: rest)
    else some (scalar unit.toNat) :: decodeUtf16 (next :: rest)

/-- `String::from_utf16`. -/
def fromUtf16 (units : List UInt16) : Option String :=
  ((decodeUtf16 units).mapM id).map String.ofList

/-- `String::from_utf16_lossy`: U+FFFD for every unpaired surrogate. -/
def fromUtf16Lossy (units : List UInt16) : String :=
  String.ofList ((decodeUtf16 units).map fun unit => unit.getD '\uFFFD')

/-- `str::encode_utf16`. -/
def encodeUtf16 (text : List Char) : List UInt16 :=
  text.flatMap fun c =>
    if c.toNat < 0x10000 then [UInt16.ofNat c.toNat]
    else
      [UInt16.ofNat (0xD800 + (c.toNat - 0x10000) / 0x400),
        UInt16.ofNat (0xDC00 + (c.toNat - 0x10000) % 0x400)]

/-- `chunks_exact(2)`, each pair of bytes read as a little-endian unit. -/
def unitsLe : List UInt8 → List UInt16
  | low :: high :: rest => getU16Le [low, high] :: unitsLe rest
  | _ => []

/-- The decimal digit of a character. -/
def digit (c : Char) : Option ℕ :=
  if c.isDigit then some (c.toNat - '0'.toNat) else none

/-- The digit loop of `from_str_radix(10)`: an invalid digit or an overflow is
reported at the first character that causes it. -/
def parseDigits (bound : ℕ) : ℕ → List Char → Except ParseIntError ℕ
  | value, [] => .ok value
  | value, c :: rest =>
    match digit c with
    | none => .error .invalidDigit
    | some d =>
      if value * 10 + d < bound then parseDigits bound (value * 10 + d) rest
      else .error .posOverflow

/-- `str::parse` at an unsigned type of `width` bits. -/
def parseUnsigned (width : ℕ) (text : List Char) : Except ParseIntError ℕ :=
  match text with
  | [] => .error .empty
  | ['+'] => .error .invalidDigit
  | ['-'] => .error .invalidDigit
  | '+' :: rest => parseDigits (2 ^ width) 0 rest
  | _ => parseDigits (2 ^ width) 0 text

end Tiberius
