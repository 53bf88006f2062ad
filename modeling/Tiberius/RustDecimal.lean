import Mathlib.Algebra.Order.Field.Rat
import Mathlib.Tactic.FieldSimp
import Tiberius.NumericHalves
import Tiberius.FromSql

/-!
The conversions between `numeric` values and the type of the `rust_decimal` crate,
which enters as a parameter. The crate has 96 bits and at most 28 digits behind the
point, where the server has 38 digits on either side of it, and its constructor
panics on what it has no room for.
-/

namespace Tiberius

/-- The words that the conversions take out of `UnpackedDecimal`. -/
structure UnpackedDecimal where
  lo : UInt32
  mid : UInt32
  hi : UInt32
  deriving DecidableEq, Repr

/-- The number that the three words are the parts of. -/
def UnpackedDecimal.magnitude (unpacked : UnpackedDecimal) : ℕ :=
  unpacked.hi.toNat <<< 64 + unpacked.mid.toNat <<< 32 + unpacked.lo.toNat

theorem UnpackedDecimal.magnitude_lt (unpacked : UnpackedDecimal) :
    unpacked.magnitude < 2 ^ 96 := by
  have hlo := unpacked.lo.toNat_lt
  have hmid := unpacked.mid.toNat_lt
  have hhi := unpacked.hi.toNat_lt
  rw [magnitude, Nat.shiftLeft_eq, Nat.shiftLeft_eq]
  omega

/-- The `rust_decimal` crate, as far as the conversions use it. -/
class RustDecimal where
  Decimal : Type
  /-- `Decimal::from_i128_with_scale`, with `none` for a panic. -/
  fromI128WithScale : ℤ → UInt32 → Option Decimal
  unpack : Decimal → UnpackedDecimal
  isSignNegative : Decimal → Bool
  scale : Decimal → UInt32
  /-- `==` of two decimals. -/
  eq : Decimal → Decimal → Bool

/-- The number that a column value stands for. -/
def Numeric.toRat (num : Numeric) : ℚ := num.value / 10 ^ num.scale.toNat

namespace RustDecimal

section

variable [RustDecimal]

def Decimal.fromSql [StdLib] : ColumnData → Except Fault (Option Decimal)
  | .numeric num => nullable (fun num : Numeric =>
      unwrap (fromI128WithScale num.value num.scale.toUInt32)) num
  | data => cannotInterpret data "Decimal"

/-- The words of a magnitude stay below 96 bits, so neither the sum nor the sign
leaves the range of an `i128`. -/
def Decimal.signed (decimal : Decimal) : ℤ :=
  if isSignNegative decimal then -(unpack decimal).magnitude else (unpack decimal).magnitude

def Decimal.numeric (decimal : Decimal) : Except Fault Numeric :=
  Numeric.newWithScale (signed decimal) (scale decimal).toUInt8

def Decimal.toSql (decimal : Decimal) : Except Fault ColumnData :=
  (Decimal.numeric decimal).map fun num => .numeric (some num)

def Decimal.intoSql (decimal : Decimal) : Except Fault ColumnData :=
  (Decimal.numeric decimal).map fun num => .numeric (some num)

/-- The number that a decimal stands for. -/
def Decimal.toRat (decimal : Decimal) : ℚ := signed decimal / 10 ^ (scale decimal).toNat

/-- What is relied on: a decimal has a scale of at most 28, it is made of a number of
96 bits and such a scale and of nothing else, and decimals are compared as numbers. -/
structure Exact : Prop where
  scale_le : ∀ decimal : Decimal, (scale decimal).toNat ≤ 28
  fits : ∀ value scale decimal, fromI128WithScale value scale = some decimal →
    value.natAbs < 2 ^ 96 ∧ scale.toNat ≤ 28
  made : ∀ value count, value.natAbs < 2 ^ 96 → count.toNat ≤ 28 →
    ∃ decimal, fromI128WithScale value count = some decimal ∧
      Decimal.signed decimal = value ∧ scale decimal = count
  eq_iff : ∀ decimal other : Decimal, eq decimal other = true ↔
    Decimal.toRat decimal = Decimal.toRat other

/-- A number is read as the decimal that stands for it, or refused because there is
none. -/
def Decimal.Reads [StdLib] (num : Numeric) : Prop :=
  match Decimal.fromSql (.numeric (some num)) with
  | .ok (some decimal) => Decimal.toRat decimal = num.toRat
  | .ok none => False
  | .error (.error _) => ¬ ∃ decimal : Decimal, Decimal.toRat decimal = num.toRat
  | .error .panic => False

theorem Decimal.signed_natAbs_lt (decimal : Decimal) : (signed decimal).natAbs < 2 ^ 96 := by
  have hlt := (unpack decimal).magnitude_lt
  unfold signed
  split <;> omega

/-- The number that a decimal is sent as. -/
theorem Decimal.numeric_ok (hexact : Exact) (decimal : Decimal) :
    ∃ num, Decimal.numeric decimal = .ok num ∧ num.value = signed decimal ∧
      num.scale.toUInt32 = scale decimal ∧ num.scale ≤ 28 := by
  have hlt := Decimal.signed_natAbs_lt decimal
  have hle := hexact.scale_le decimal
  have hcount : (scale decimal).toUInt8.toNat = (scale decimal).toNat := by
    rw [UInt32.toNat_toUInt8]
    omega
  have hscale : (scale decimal).toUInt8 ≤ 28 := by
    rw [UInt8.le_iff_toNat_le, hcount]
    exact hle
  have hwide : (scale decimal).toUInt8 ≤ 38 := UInt8.le_trans hscale (by decide)
  refine ⟨⟨signed decimal, (scale decimal).toUInt8, by omega, by omega, hwide⟩,
    dif_pos ⟨⟨by omega, by omega⟩, hwide⟩, rfl, ?_, hscale⟩
  apply UInt32.toNat_inj.mp
  rw [UInt8.toNat_toUInt32, hcount]

variable [StdLib]

theorem Decimal.fromSql_numeric (num : Numeric) :
    Decimal.fromSql (.numeric (some num)) =
      (unwrap (fromI128WithScale num.value num.scale.toUInt32)).map some := rfl

/-- What the crate has room for is read exactly. -/
theorem Decimal.fromSql_ok (hexact : Exact) {num : Numeric} (hvalue : num.value.natAbs < 2 ^ 96)
    (hscale : num.scale ≤ 28) :
    ∃ decimal, Decimal.fromSql (.numeric (some num)) = .ok (some decimal) ∧
      signed decimal = num.value ∧ scale decimal = num.scale.toUInt32 := by
  have hcount : num.scale.toUInt32.toNat ≤ 28 := by
    rw [UInt8.toNat_toUInt32]
    exact UInt8.le_iff_toNat_le.mp hscale
  obtain ⟨decimal, hmade, hsigned, hkept⟩ := hexact.made _ _ hvalue hcount
  refine ⟨decimal, ?_, hsigned, hkept⟩
  rw [Decimal.fromSql_numeric, hmade]
  rfl

/-- All else reaches the panic of the constructor. -/
theorem Decimal.fromSql_panic (hexact : Exact) {num : Numeric}
    (hlarge : ¬ (num.value.natAbs < 2 ^ 96 ∧ num.scale ≤ 28)) :
    Decimal.fromSql (.numeric (some num)) = .error .panic := by
  cases hmade : fromI128WithScale num.value num.scale.toUInt32 with
  | none =>
    rw [Decimal.fromSql_numeric, hmade]
    rfl
  | some decimal =>
    obtain ⟨hvalue, hcount⟩ := hexact.fits _ _ _ hmade
    rw [UInt8.toNat_toUInt32] at hcount
    exact absurd ⟨hvalue, UInt8.le_iff_toNat_le.mpr hcount⟩ hlarge

theorem Decimal.reads_iff (hexact : Exact) (num : Numeric) :
    Decimal.Reads num ↔ num.value.natAbs < 2 ^ 96 ∧ num.scale ≤ 28 := by
  by_cases hroom : num.value.natAbs < 2 ^ 96 ∧ num.scale ≤ 28
  · refine iff_of_true ?_ hroom
    obtain ⟨decimal, hread, hsigned, hscale⟩ := Decimal.fromSql_ok hexact hroom.1 hroom.2
    unfold Decimal.Reads
    rw [hread]
    change Decimal.toRat decimal = num.toRat
    rw [Decimal.toRat, Numeric.toRat, hsigned, hscale, UInt8.toNat_toUInt32]
  · refine iff_of_false ?_ hroom
    unfold Decimal.Reads
    rw [Decimal.fromSql_panic hexact hroom]
    exact id

/-- The conversion from a column value is exact where the crate has room for the
number and panics elsewhere, and every decimal comes back from its column value. -/
theorem Decimal.reads_iff_and_reads_back (hexact : Exact) :
    (∀ num, Decimal.Reads num ↔ num.value.natAbs < 2 ^ 96 ∧ num.scale ≤ 28) ∧
      ∀ decimal : Decimal, ∃ data back, Decimal.toSql decimal = .ok data ∧
        Decimal.intoSql decimal = .ok data ∧ Decimal.fromSql data = .ok (some back) ∧
          eq back decimal = true := by
  refine ⟨Decimal.reads_iff hexact, fun decimal => ?_⟩
  obtain ⟨num, hnum, hvalue, hscale, hle⟩ := Decimal.numeric_ok hexact decimal
  have hlt := Decimal.signed_natAbs_lt decimal
  rw [← hvalue] at hlt
  obtain ⟨back, hread, hsigned, hkept⟩ := Decimal.fromSql_ok hexact hlt hle
  have hsent : Decimal.toSql decimal = .ok (.numeric (some num)) := by
    rw [Decimal.toSql, hnum]
    rfl
  refine ⟨_, back, hsent, hsent, hread, (hexact.eq_iff _ _).mpr ?_⟩
  rw [Decimal.toRat, Decimal.toRat, hsigned, hkept, hvalue, hscale]

end

/-- A crate that computes with the numbers themselves. -/
@[reducible] def exact : RustDecimal where
  Decimal := Bool × { magnitude : ℕ // magnitude < 2 ^ 96 } × { scale : ℕ // scale ≤ 28 }
  fromI128WithScale value scale :=
    if h : value.natAbs < 2 ^ 96 ∧ scale.toNat ≤ 28 then
      some (decide (value < 0), ⟨value.natAbs, h.1⟩, ⟨scale.toNat, h.2⟩)
    else none
  unpack decimal :=
    { lo := UInt32.ofNat decimal.2.1.val
      mid := UInt32.ofNat (decimal.2.1.val / 2 ^ 32)
      hi := UInt32.ofNat (decimal.2.1.val / 2 ^ 64) }
  isSignNegative decimal := decimal.1
  scale decimal := UInt32.ofNat decimal.2.2.val
  eq decimal other :=
    decide ((if decimal.1 then -(decimal.2.1.val : ℤ) else decimal.2.1.val) * 10 ^ other.2.2.val =
      (if other.1 then -(other.2.1.val : ℤ) else other.2.1.val) * 10 ^ decimal.2.2.val)

theorem exact_magnitude (decimal : exact.Decimal) :
    (exact.unpack decimal).magnitude = decimal.2.1.val := by
  have hlt := decimal.2.1.property
  change (UInt32.ofNat (decimal.2.1.val / 2 ^ 64)).toNat <<< 64 +
    (UInt32.ofNat (decimal.2.1.val / 2 ^ 32)).toNat <<< 32 +
      (UInt32.ofNat decimal.2.1.val).toNat = _
  rw [UInt32.toNat_ofNat', UInt32.toNat_ofNat', UInt32.toNat_ofNat', Nat.shiftLeft_eq,
    Nat.shiftLeft_eq]
  omega

theorem exact_signed (decimal : exact.Decimal) :
    @Decimal.signed exact decimal =
      if decimal.1 then -(decimal.2.1.val : ℤ) else decimal.2.1.val := by
  unfold Decimal.signed
  rw [exact_magnitude]
  rfl

theorem exact_scale (decimal : exact.Decimal) :
    (exact.scale decimal).toNat = decimal.2.2.val := by
  have hle := decimal.2.2.property
  change (UInt32.ofNat decimal.2.2.val).toNat = _
  rw [UInt32.toNat_ofNat']
  omega

theorem exact_isExact : @Exact exact := by
  refine @Exact.mk exact ?scale_le ?fits ?made ?eq_iff
  case scale_le =>
    intro decimal
    rw [exact_scale]
    exact decimal.2.2.property
  case fits =>
    intro value scale decimal hmade
    by_contra hout
    rw [show exact.fromI128WithScale value scale = none from dif_neg hout] at hmade
    cases hmade
  case made =>
    intro value count hvalue hcount
    refine ⟨_, dif_pos ⟨hvalue, hcount⟩, ?_, UInt32.ofNat_toNat⟩
    rw [exact_signed]
    dsimp only
    split <;> rename_i hsign <;> rw [decide_eq_true_eq] at hsign <;> omega
  case eq_iff =>
    intro decimal other
    have hpow : ∀ count, (10 : ℚ) ^ count ≠ 0 := fun count => pow_ne_zero count (by norm_num)
    unfold Decimal.toRat
    rw [exact_scale, exact_scale, div_eq_div_iff (hpow _) (hpow _), exact_signed, exact_signed]
    refine decide_eq_true_iff.trans ?_
    norm_cast

/-- One third with 28 digits behind the point is read. -/
theorem Decimal.reads_iff_and_reads_back_third :
    @Decimal.Reads exact .exact
      ⟨3333333333333333333333333333, 28, by decide, by decide, by decide⟩ :=
  ((@Decimal.reads_iff_and_reads_back exact .exact exact_isExact).1 _).mpr ⟨by decide, by decide⟩

/-- The largest number of a `decimal(38, 0)` is decoded, and its conversion panics. -/
theorem Decimal.fromSql_panics : ∃ num : Numeric,
    num.value = 10 ^ 38 - 1 ∧ num.scale = 0 ∧
      (∀ env, ∃ bytes, (Numeric.decode 0).Reads env bytes (some num)) ∧
      @Decimal.fromSql exact .exact (.numeric (some num)) = .error .panic := by
  refine ⟨⟨10 ^ 38 - 1, 0, by decide, by decide, by decide⟩, rfl, rfl, fun env => ?_, ?_⟩
  · obtain ⟨bytes, -, hreads⟩ := @Numeric.decode_reads env
      ⟨10 ^ 38 - 1, 0, by decide, by decide, by decide⟩ (by decide)
    exact ⟨bytes, hreads⟩
  · exact @Decimal.fromSql_panic exact .exact exact_isExact _ (by decide)

end RustDecimal

end Tiberius
