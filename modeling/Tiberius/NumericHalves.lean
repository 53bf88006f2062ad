import Tiberius.TokenBounds
import Tiberius.Variants

/-!
Numbers as they are put together from halves. A magnitude of 12 or 16 bytes moves
as a word of eight bytes with the rest above it, in both directions. The width is
chosen from the decimal digits of a number and the magnitude is binary, so every
choice has to leave room for the largest number of its digits.
-/

namespace Tiberius

open Reading Reader Program Writing Writer

theorem leNat_append (first second : List UInt8) :
    leNat (first ++ second) = leNat first + 256 ^ first.length * leNat second := by
  induction first with
  | nil => rw [List.nil_append, leNat, List.length_nil, Nat.pow_zero, Nat.one_mul, Nat.zero_add]
  | cons byte rest ih =>
    rw [List.cons_append, leNat, ih, leNat, List.length_cons, Nat.pow_succ', Nat.mul_add,
      Nat.mul_assoc]
    omega

theorem leNat_eq_zero {bytes : List UInt8} (hzero : ∀ byte ∈ bytes, byte = 0) :
    leNat bytes = 0 := by
  induction bytes with
  | nil => rfl
  | cons byte rest ih =>
    have hbyte : byte = 0 := hzero byte List.mem_cons_self
    rw [leNat, hbyte, ih fun other hother => hzero other (List.mem_cons_of_mem _ hother)]
    rfl

namespace Numeric

/-- `decode_d128`. The bytes above the low part are looked at before they are counted. -/
def decodeD128 (buf : List UInt8) : Except Fault ℕ :=
  let lowPart := leNat (buf.take 8)
  if (buf.drop 8).any (· != 0) then
    match buf.length with
    | 12 => .ok (lowPart + leNat ((buf.drop 8).take 4) * 2 ^ 64)
    | 16 => .ok (lowPart + leNat ((buf.drop 8).take 8) * 2 ^ 64)
    | _ => .error .panic
  else .ok lowPart

/-- `Numeric::decode`, with the halves of the wide magnitudes. -/
def decodeHalves (scale : UInt8) : Reader (Option Numeric) := do
  let len ← readU8
  if len = 0 then pure none
  else
    let byte ← readU8
    match signOf byte with
    | none => protocol "decimal: invalid sign"
    | some sign =>
      let magnitude ←
        match len.toNat with
        | 5 => do
          let value ← readU32Le
          pure value.toNat
        | 9 => do
          let value ← readU64Le
          pure value.toNat
        | 13 => do
          let bytes ← readBytesInto 12 12
          Program.ofExcept (decodeD128 bytes)
        | 17 => do
          let bytes ← readBytesInto 16 16
          let magnitude ← Program.ofExcept (decodeD128 bytes)
          if magnitude > 2 ^ 127 - 1 then
            protocol "decimal/numeric: magnitude exceeds the representable range"
          else pure magnitude
        | len => protocol ("decimal/numeric: invalid length of " ++ toString len ++ " received")
      let value ← Program.ofExcept (newWithScale (magnitude * sign) scale)
      pure (some value)

/-- `Numeric::encode`, with the casts of the magnitude and the halves of 12 bytes. -/
def encodeHalves (num : Numeric) : Writer Unit := do
  putU8 num.len
  putU8 (if num.value < 0 then 0 else 1)
  match num.len.toNat with
  | 5 => putU32Le (UInt32.ofNat num.value.natAbs)
  | 9 => putU64Le (UInt64.ofNat num.value.natAbs)
  | 13 => do
    putU64Le (UInt64.ofNat num.value.natAbs)
    putU32Le (UInt32.ofNat (num.value.natAbs >>> 64))
  | _ => .put (toLe 16 num.value.natAbs)

/-- The high half counts whether or not it has been skipped for being zero. -/
theorem decodeD128_eq {buf : List UInt8} (hlength : buf.length = 12 ∨ buf.length = 16) :
    decodeD128 buf = .ok (leNat buf) := by
  have hsplit : leNat (buf.take 8) + leNat (buf.drop 8) * 2 ^ 64 = leNat buf := by
    have happend := leNat_append (buf.take 8) (buf.drop 8)
    rw [List.take_append_drop, List.length_take_of_le (by omega), Nat.mul_comm] at happend
    exact happend.symm
  unfold decodeD128
  by_cases hhigh : (buf.drop 8).any (· != 0)
  · have hdrop : (buf.drop 8).length = buf.length - 8 := List.length_drop
    rw [if_pos hhigh]
    rcases hlength with hlength | hlength
    · have htake : (buf.drop 8).take 4 = buf.drop 8 := List.take_of_length_le (by omega)
      rw [hlength]
      change Except.ok (leNat (buf.take 8) + leNat ((buf.drop 8).take 4) * 2 ^ 64) = _
      rw [htake, hsplit]
    · have htake : (buf.drop 8).take 8 = buf.drop 8 := List.take_of_length_le (by omega)
      rw [hlength]
      change Except.ok (leNat (buf.take 8) + leNat ((buf.drop 8).take 8) * 2 ^ 64) = _
      rw [htake, hsplit]
  · have hzero : ∀ byte ∈ buf.drop 8, byte = 0 := by
      intro byte hbyte
      by_contra hne
      exact hhigh (List.any_eq_true.mpr ⟨byte, hbyte, bne_iff_ne.mpr hne⟩)
    rw [leNat_eq_zero hzero, Nat.zero_mul, Nat.add_zero] at hsplit
    rw [if_neg hhigh, hsplit]

/-- What the decoder makes of the halves is what it makes of the whole magnitude. -/
theorem decodeHalves_agree (scale : UInt8) : Agree Eq (decode scale) (decodeHalves scale) := by
  refine Agree.after readU8 fun len => ?_
  split
  · exact .refl _
  · refine Agree.after readU8 fun byte => ?_
    cases signOf byte with
    | none => exact .refl _
    | some sign =>
      dsimp only
      generalize len.toNat = width
      have hwidth : width = 5 ∨ width = 9 ∨ width = 13 ∨ width = 17 ∨
          (width ≠ 5 ∧ width ≠ 9 ∧ width ≠ 13 ∧ width ≠ 17) := by omega
      obtain rfl | rfl | rfl | rfl | ⟨hfive, hnine, hthirteen, hseventeen⟩ := hwidth
      · exact .refl _
      · exact .refl _
      · refine (readBytesInto_ends (by decide) 12).agree.bind ?_
        rintro bytes _ ⟨rfl, hbytes⟩
        rw [decodeD128_eq (.inl hbytes)]
        exact .refl _
      · refine (readBytesInto_ends (by decide) 16).agree.bind ?_
        rintro bytes _ ⟨rfl, hbytes⟩
        rw [decodeD128_eq (.inr hbytes)]
        exact .refl _
      · simp only []
        exact .refl _

theorem encodeHalves_eq (num : Numeric) : num.encodeHalves = num.encode := by
  have hcast4 : ∀ value : ℕ, toLe 4 (UInt32.ofNat value).toNat = toLe 4 value := by
    intro value
    rw [UInt32.toNat_ofNat']
    exact toLe_mod 4 value
  have hcast8 : ∀ value : ℕ, toLe 8 (UInt64.ofNat value).toNat = toLe 8 value := by
    intro value
    rw [UInt64.toNat_ofNat']
    exact toLe_mod 8 value
  have htwelve : ∀ value : ℕ, toLe 8 value ++ toLe 4 (value >>> 64) = toLe 12 value := by
    intro value
    rw [Nat.shiftRight_eq_div_pow]
    exact (toLe_add 8 4 value).symm
  rcases num.len_cases with ⟨h, -⟩ | ⟨h, -⟩ | ⟨h, -⟩ | ⟨h, -⟩
  · rw [encodeHalves, encode, h]
    simp only [UInt8.reduceToNat, putU32Le, hcast4]
  · rw [encodeHalves, encode, h]
    simp only [UInt8.reduceToNat, putU64Le, hcast8]
  · rw [encodeHalves, encode, h, ← htwelve]
    simp only [UInt8.reduceToNat, putU64Le, putU32Le, hcast4, hcast8]
    rfl
  · rw [encodeHalves, encode, h]
    rfl

variable {env : Context}

/-- The one magnitude that no number of its sign can hold is refused. -/
theorem decode_smallest {num : Numeric} (hvalue : num.value = -2 ^ 127) (rest : List UInt8) :
    (decode num.scale).run env (17 :: num.signByte :: (toLe 16 num.value.natAbs ++ rest)) =
      .failed (.error (.protocol "decimal/numeric: magnitude exceeds the representable range"))
        rest := by
  obtain ⟨sign, hsign, -⟩ := num.signOf_signByte
  have hmagnitude : (readBytesInto 16 16).Reads env (toLe 16 num.value.natAbs) _ :=
    (readBytesInto_reads (by decide)).mpr ⟨toLe_length 16 _, rfl⟩
  have hlarge : leNat (toLe 16 num.value.natAbs) > 2 ^ 127 - 1 := by
    rw [leNat_toLe, hvalue]
    decide
  refine ((readU8_put 17).run_bind _ _).trans ?_
  refine ((readU8_put num.signByte).run_bind _ _).trans ?_
  rw [hsign]
  refine (hmagnitude.run_bind _ rest).trans ?_
  rw [if_pos hlarge]
  rfl

/-- A number is written with a length of its own and a magnitude that has lost
nothing, and it is read back; only the smallest number of all is refused. -/
theorem halves_read_back (env : Context) (num : Numeric) :
    ∃ (len sign : UInt8) (magnitude : List UInt8),
      (len = 5 ∨ len = 9 ∨ len = 13 ∨ len = 17) ∧
        num.encodeHalves = .done (len :: sign :: magnitude) () ∧
        (sign :: magnitude).length = len.toNat ∧ leNat magnitude = num.value.natAbs ∧
        ∀ rest, if num.value = -2 ^ 127 then
          ∃ error, (decodeHalves num.scale).run env (len :: sign :: magnitude ++ rest) =
            .failed (.error error) rest
        else
          (decodeHalves num.scale).run env (len :: sign :: magnitude ++ rest) =
            .done (some num) rest := by
  obtain ⟨width, hwidth, hlen, hlt, hencode⟩ := num.encode_eq
  refine ⟨num.len, num.signByte, toLe width num.value.natAbs, ?_, ?_, ?_, ?_, ?_⟩
  · rw [hlen]
    rcases hwidth with rfl | rfl | rfl | rfl <;> decide
  · rw [encodeHalves_eq, hencode]
  · rw [hlen, List.length_cons, toLe_length, UInt8.toNat_ofNat']
    omega
  · rw [leNat_toLe, Nat.mod_eq_of_lt hlt]
  · intro rest
    have hagree := (decodeHalves_agree num.scale).run env
      (num.len :: num.signByte :: toLe width num.value.natAbs ++ rest)
    split
    next hsmallest =>
      have hsixteen : width = 16 := by
        rw [hsmallest] at hlt
        rcases hwidth with rfl | rfl | rfl | rfl
        · exact absurd hlt (by decide)
        · exact absurd hlt (by decide)
        · exact absurd hlt (by decide)
        · rfl
      subst hsixteen
      have hrefused := @decode_smallest env num hsmallest rest
      rw [hlen] at hagree ⊢
      exact ⟨_, hagree.2 _ _ hrefused⟩
    next hother =>
      obtain ⟨bytes, hbytes, hreads⟩ := @decode_reads env num hother
      obtain ⟨rfl, -⟩ := Written.done_inj.mp (hencode.symm.trans hbytes)
      obtain ⟨_, rfl, hrun⟩ := hagree.1 _ _ (hreads.run_append rest)
      exact hrun

end Numeric

end Tiberius
