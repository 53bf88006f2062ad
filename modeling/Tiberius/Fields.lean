import Tiberius.Reading.Exact
import Tiberius.Writing.Written
import Tiberius.Requests

/-!
The fields of the wire format: how each is written, and what its reader takes.
A reader gives a value on exactly one list of bytes, the one that the writer of
the field produces, so a decoder put together from such readers can be followed
from the value to its bytes and from the bytes to the value.
-/

namespace Tiberius

open Reading Reader Program Writing

/-- An encoder: it appends to a buffer. -/
abbrev Writer (α : Type) : Type := Written Fault UInt8 α

namespace Writer

variable {α : Type}

def protocol (message : String) : Writer α := .fail (.error (.protocol message))

def putU8 (value : UInt8) : Writer Unit := .put [value]

def putU16Le (value : UInt16) : Writer Unit := .put (toLe 2 value.toNat)

def putU32Le (value : UInt32) : Writer Unit := .put (toLe 4 value.toNat)

def putU64Le (value : UInt64) : Writer Unit := .put (toLe 8 value.toNat)

/-- A field that is written as a whole or refused before its first byte. -/
def putField : Except Error (List UInt8) → Writer Unit
  | .ok bytes => .put bytes
  | .error error => .fail (.error error)

@[simp] theorem putU8_eq (value : UInt8) : putU8 value = .done [value] () := rfl

@[simp] theorem putU16Le_eq (value : UInt16) : putU16Le value = .done (toLe 2 value.toNat) () := rfl

@[simp] theorem putU32Le_eq (value : UInt32) : putU32Le value = .done (toLe 4 value.toNat) () := rfl

@[simp] theorem putU64Le_eq (value : UInt64) : putU64Le value = .done (toLe 8 value.toNat) () := rfl

@[simp] theorem putField_ok (bytes : List UInt8) : putField (.ok bytes) = .done bytes () := rfl

theorem putField_ne_panic (field : Except Error (List UInt8)) :
    (putField field).result ≠ .error .panic := by
  cases field with
  | ok bytes => rintro ⟨⟩
  | error error => rintro ⟨⟩

theorem putField_bVarchar_iff (text : String) :
    (putField (encodeBVarchar text)).result = .ok () ↔ (encodeUtf16 text.toList).length ≤ 255 := by
  unfold encodeBVarchar
  dsimp only
  split_ifs with hlong
  · exact iff_of_false (fun h => by cases h) (Nat.not_le_of_lt hlong)
  · exact iff_of_true rfl (Nat.le_of_not_lt hlong)

end Writer

theorem leNat_lt (bytes : List UInt8) : leNat bytes < 256 ^ bytes.length := by
  induction bytes with
  | nil => exact Nat.one_pos
  | cons byte rest ih =>
    have hbyte : byte.toNat < 256 := byte.toNat_lt
    rw [leNat, List.length_cons, Nat.pow_succ]
    omega

theorem toLe_leNat (bytes : List UInt8) : toLe bytes.length (leNat bytes) = bytes := by
  induction bytes with
  | nil => rfl
  | cons byte rest ih =>
    have hbyte : byte.toNat < 256 := byte.toNat_lt
    have hdiv : (byte.toNat + 256 * leNat rest) / 256 = leNat rest := by omega
    have hmod : UInt8.ofNat (byte.toNat + 256 * leNat rest) = byte := by
      apply UInt8.toNat.inj
      rw [UInt8.toNat_ofNat']
      omega
    rw [leNat, List.length_cons, toLe, hdiv, hmod, ih]

/-- Bytes of a known number are determined by their value. -/
theorem eq_toLe_iff {bytes : List UInt8} {width value : ℕ} (hvalue : value < 256 ^ width) :
    bytes = toLe width value ↔ bytes.length = width ∧ leNat bytes = value := by
  constructor
  · rintro rfl
    refine ⟨toLe_length width value, ?_⟩
    rw [leNat_toLe, Nat.mod_eq_of_lt hvalue]
  · rintro ⟨rfl, rfl⟩
    exact (toLe_leNat bytes).symm

/-- Only the low-order bytes of a number count. -/
theorem toLe_mod (width value : ℕ) : toLe width (value % 256 ^ width) = toLe width value := by
  have hpos : 0 < 256 ^ width := Nat.pow_pos (by decide)
  symm
  rw [eq_toLe_iff (Nat.mod_lt value hpos)]
  exact ⟨toLe_length width value, leNat_toLe width value⟩

theorem toLe_add (width more value : ℕ) :
    toLe (width + more) value = toLe width value ++ toLe more (value / 256 ^ width) := by
  induction width generalizing value with
  | zero => rw [Nat.zero_add, Nat.pow_zero, Nat.div_one, toLe, List.nil_append]
  | succ width ih =>
    rw [Nat.succ_add, toLe, toLe, ih, Nat.div_div_eq_div_mul, Nat.pow_succ', List.cons_append]

theorem toLe_one (byte : UInt8) : toLe 1 byte.toNat = [byte] := by
  rw [toLe, toLe, UInt8.ofNat_toNat]

section Integers

variable {env : Context} {bytes : List UInt8}

@[simp] theorem reads_protocol {α : Type} {message : String} {value : α} :
    (Reader.protocol message : Reader α).Reads env bytes value ↔ False := reads_fail

theorem readExact_reads {count : ℕ} {value : List UInt8} :
    (readExact count).Reads env bytes value ↔ bytes.length = count ∧ value = bytes :=
  reads_read_ret

/-- A field of a fixed width whose reader gives a value on one number only. -/
theorem reads_le {α : Type} {width code : ℕ} {f : List UInt8 → α} {value : α}
    (hcode : code < 256 ^ width)
    (hf : ∀ taken, taken.length = width → (value = f taken ↔ leNat taken = code)) :
    (read width fun taken => ret (f taken) : Reader α).Reads env bytes value ↔
      bytes = toLe width code := by
  rw [reads_read_ret, eq_toLe_iff hcode]
  constructor
  · rintro ⟨hlength, heq⟩
    exact ⟨hlength, (hf bytes hlength).mp heq⟩
  · rintro ⟨hlength, heq⟩
    exact ⟨hlength, (hf bytes hlength).mpr heq⟩

theorem readU8_reads {value : UInt8} : readU8.Reads env bytes value ↔ bytes = [value] := by
  rw [← toLe_one]
  apply reads_le value.toNat_lt
  intro taken hlength
  have htaken := leNat_lt taken
  rw [← UInt8.toNat_inj, UInt8.toNat_ofNat']
  rw [hlength] at htaken
  omega

theorem readU8_put (value : UInt8) : readU8.Reads env [value] value := readU8_reads.mpr rfl

theorem getU16Le_eq_iff {value : UInt16} (hlength : bytes.length = 2) :
    value = getU16Le bytes ↔ leNat bytes = value.toNat := by
  have hbytes := leNat_lt bytes
  rw [← UInt16.toNat_inj, getU16Le, UInt16.toNat_ofNat']
  rw [hlength] at hbytes
  omega

theorem getU32Le_eq_iff {value : UInt32} (hlength : bytes.length = 4) :
    value = getU32Le bytes ↔ leNat bytes = value.toNat := by
  have hbytes := leNat_lt bytes
  rw [← UInt32.toNat_inj, getU32Le, UInt32.toNat_ofNat']
  rw [hlength] at hbytes
  omega

theorem getU64Le_eq_iff {value : UInt64} (hlength : bytes.length = 8) :
    value = getU64Le bytes ↔ leNat bytes = value.toNat := by
  have hbytes := leNat_lt bytes
  rw [← UInt64.toNat_inj, getU64Le, UInt64.toNat_ofNat']
  rw [hlength] at hbytes
  omega

theorem readU16Le_reads {value : UInt16} :
    readU16Le.Reads env bytes value ↔ bytes = toLe 2 value.toNat :=
  reads_le value.toNat_lt fun _ hlength => getU16Le_eq_iff hlength

theorem readU32Le_reads {value : UInt32} :
    readU32Le.Reads env bytes value ↔ bytes = toLe 4 value.toNat :=
  reads_le value.toNat_lt fun _ hlength => getU32Le_eq_iff hlength

theorem readU64Le_reads {value : UInt64} :
    readU64Le.Reads env bytes value ↔ bytes = toLe 8 value.toNat :=
  reads_le value.toNat_lt fun _ hlength => getU64Le_eq_iff hlength

/-- A signed field is an unsigned one taken as two's complement. -/
theorem readI16Le_reads {value : Int16} :
    readI16Le.Reads env bytes value ↔ bytes = toLe 2 value.toUInt16.toNat := by
  apply reads_le value.toUInt16.toNat_lt
  intro taken hlength
  rw [← getU16Le_eq_iff hlength]
  exact ⟨fun heq => congrArg Int16.toUInt16 heq, fun heq => congrArg UInt16.toInt16 heq⟩

theorem readI32Le_reads {value : Int32} :
    readI32Le.Reads env bytes value ↔ bytes = toLe 4 value.toUInt32.toNat := by
  apply reads_le value.toUInt32.toNat_lt
  intro taken hlength
  rw [← getU32Le_eq_iff hlength]
  exact ⟨fun heq => congrArg Int32.toUInt32 heq, fun heq => congrArg UInt32.toInt32 heq⟩

theorem readI64Le_reads {value : Int64} :
    readI64Le.Reads env bytes value ↔ bytes = toLe 8 value.toUInt64.toNat := by
  apply reads_le value.toUInt64.toNat_lt
  intro taken hlength
  rw [← getU64Le_eq_iff hlength]
  exact ⟨fun heq => congrArg Int64.toUInt64 heq, fun heq => congrArg UInt64.toInt64 heq⟩

theorem readWindows_reads {cap : ℕ} (hcap : 0 < cap) {fuel remaining : ℕ}
    (hfuel : remaining ≤ fuel) {value : List UInt8} :
    (readWindows cap fuel remaining).Reads env bytes value ↔
      bytes.length = remaining ∧ value = bytes := by
  induction fuel generalizing remaining bytes value with
  | zero =>
    obtain rfl : remaining = 0 := by omega
    rw [readWindows, reads_ret, List.length_eq_zero_iff]
    exact ⟨fun h => ⟨h.1, h.2.trans h.1.symm⟩, fun h => ⟨h.1, h.2.trans h.1⟩⟩
  | succ fuel ih =>
    rw [readWindows]
    split_ifs with hremaining
    · subst hremaining
      rw [reads_ret, List.length_eq_zero_iff]
      exact ⟨fun h => ⟨h.1, h.2.trans h.1.symm⟩, fun h => ⟨h.1, h.2.trans h.1⟩⟩
    · have hless : remaining - min remaining cap ≤ fuel := by omega
      simp only [bind_eq, pure_eq, reads_bind, readExact_reads, ih hless, reads_ret]
      constructor
      · rintro ⟨first, rest, taken, rfl, ⟨hfirst, rfl⟩, second, none, more, rfl, ⟨hsecond, rfl⟩,
          rfl, rfl⟩
        simp only [List.append_nil, List.length_append, and_true]
        omega
      · rintro ⟨rfl, rfl⟩
        refine ⟨value.take (min value.length cap), value.drop (min value.length cap), _,
          (List.take_append_drop _ _).symm, ⟨by rw [List.length_take]; omega, rfl⟩,
          value.drop (min value.length cap), [], _, (List.append_nil _).symm,
          ⟨List.length_drop, rfl⟩, rfl, ?_⟩
        exact (List.take_append_drop _ _).symm

/-- A bulk read takes the bytes that it gives, whatever its windows. -/
theorem readBytesInto_reads {len cap : ℕ} (hcap : 0 < cap) {value : List UInt8} :
    (readBytesInto len cap).Reads env bytes value ↔ bytes.length = len ∧ value = bytes :=
  readWindows_reads hcap (Nat.le_refl len)

end Integers

section Text

theorem isHighSurrogate_iff {unit : UInt16} :
    isHighSurrogate unit = true ↔ 0xD800 ≤ unit.toNat ∧ unit.toNat < 0xDC00 := by
  simp only [isHighSurrogate, Bool.and_eq_true, decide_eq_true_eq, UInt16.le_iff_toNat_le,
    UInt16.lt_iff_toNat_lt, UInt16.reduceToNat]

theorem isLowSurrogate_iff {unit : UInt16} :
    isLowSurrogate unit = true ↔ 0xDC00 ≤ unit.toNat ∧ unit.toNat < 0xE000 := by
  simp only [isLowSurrogate, Bool.and_eq_true, decide_eq_true_eq, UInt16.le_iff_toNat_le,
    UInt16.lt_iff_toNat_lt, UInt16.reduceToNat]

/-- A unit that stands for a character by itself. -/
def Plain (unit : UInt16) : Prop := unit.toNat < 0xD800 ∨ 0xE000 ≤ unit.toNat

theorem plain_iff {unit : UInt16} :
    Plain unit ↔ ¬ isHighSurrogate unit = true ∧ ¬ isLowSurrogate unit = true := by
  rw [isHighSurrogate_iff, isLowSurrogate_iff, Plain]
  omega

theorem decodeUtf16_plain {unit : UInt16} (hplain : Plain unit) (rest : List UInt16) :
    decodeUtf16 (unit :: rest) = some (scalar unit.toNat) :: decodeUtf16 rest := by
  obtain ⟨hhigh, hlow⟩ := plain_iff.mp hplain
  cases rest with
  | nil => simp only [decodeUtf16, hhigh, hlow, Bool.or_self, Bool.false_eq_true, if_false]
  | cons next rest => simp only [decodeUtf16, hhigh, hlow, Bool.false_eq_true, if_false]

theorem decodeUtf16_pair {high low : UInt16} (hhigh : isHighSurrogate high = true)
    (hlow : isLowSurrogate low = true) (rest : List UInt16) :
    decodeUtf16 (high :: low :: rest) = some (surrogatePair high low) :: decodeUtf16 rest := by
  simp only [decodeUtf16, hhigh, hlow, if_true]

theorem scalar_toNat {code : ℕ} (hcode : Nat.isValidChar code) : (scalar code).toNat = code := by
  rw [scalar, Char.ofNat, dif_pos hcode]
  rfl

/-- The characters that are no surrogate and fit one unit, and the others. -/
theorem char_range (c : Char) :
    (c.toNat < 0xD800 ∨ 0xE000 ≤ c.toNat ∧ c.toNat < 0x10000) ∨
      0x10000 ≤ c.toNat ∧ c.toNat < 0x110000 := by
  have hvalid : Nat.isValidChar c.toNat := c.valid
  rw [Nat.isValidChar] at hvalid
  omega

theorem scalar_of_toNat (c : Char) : scalar c.toNat = c := Char.ofNat_toNat c

/-- The units of one character. -/
def unitsOf (c : Char) : List UInt16 := encodeUtf16 [c]

theorem encodeUtf16_cons (c : Char) (text : List Char) :
    encodeUtf16 (c :: text) = unitsOf c ++ encodeUtf16 text := by
  simp only [unitsOf, encodeUtf16, List.flatMap_cons, List.flatMap_nil, List.append_nil]

theorem encodeUtf16_replicate (count : ℕ) :
    (encodeUtf16 (List.replicate count 'a')).length = count := by
  induction count with
  | zero => rfl
  | succ count ih =>
    rw [List.replicate_succ, encodeUtf16_cons, List.length_append, ih, Nat.add_comm]
    rfl

theorem unitsOf_small {c : Char} (hc : c.toNat < 0x10000) :
    unitsOf c = [UInt16.ofNat c.toNat] := by
  simp only [unitsOf, encodeUtf16, List.flatMap_cons, List.flatMap_nil, List.append_nil, if_pos hc]

theorem unitsOf_large {c : Char} (hc : ¬ c.toNat < 0x10000) :
    unitsOf c = [UInt16.ofNat (0xD800 + (c.toNat - 0x10000) / 0x400),
      UInt16.ofNat (0xDC00 + (c.toNat - 0x10000) % 0x400)] := by
  simp only [unitsOf, encodeUtf16, List.flatMap_cons, List.flatMap_nil, List.append_nil, if_neg hc]

theorem decodeUtf16_unitsOf (c : Char) (rest : List UInt16) :
    decodeUtf16 (unitsOf c ++ rest) = some c :: decodeUtf16 rest := by
  rcases char_range c with hsmall | hlarge
  · have hnat : (UInt16.ofNat c.toNat).toNat = c.toNat := by
      rw [UInt16.toNat_ofNat']
      omega
    have hplain : Plain (UInt16.ofNat c.toNat) := by
      rw [Plain, hnat]
      omega
    rw [unitsOf_small (by omega), List.singleton_append, decodeUtf16_plain hplain, hnat,
      scalar_of_toNat]
  · have hhigh : (UInt16.ofNat (0xD800 + (c.toNat - 0x10000) / 0x400)).toNat =
        0xD800 + (c.toNat - 0x10000) / 0x400 := by
      rw [UInt16.toNat_ofNat']
      omega
    have hlow : (UInt16.ofNat (0xDC00 + (c.toNat - 0x10000) % 0x400)).toNat =
        0xDC00 + (c.toNat - 0x10000) % 0x400 := by
      rw [UInt16.toNat_ofNat']
      omega
    rw [unitsOf_large (by omega), List.cons_append, List.singleton_append,
      decodeUtf16_pair (isHighSurrogate_iff.mpr (by omega)) (isLowSurrogate_iff.mpr (by omega))]
    rw [surrogatePair, hhigh, hlow]
    have hcode : 0x10000 + (0xD800 + (c.toNat - 0x10000) / 0x400 - 0xD800) * 0x400 +
        (0xDC00 + (c.toNat - 0x10000) % 0x400 - 0xDC00) = c.toNat := by omega
    rw [hcode, scalar_of_toNat]

theorem decodeUtf16_encodeUtf16 (text : List Char) :
    decodeUtf16 (encodeUtf16 text) = text.map some := by
  induction text with
  | nil => rfl
  | cons c text ih => rw [encodeUtf16_cons, decodeUtf16_unitsOf, ih, List.map_cons]

theorem unitsOf_scalar {unit : UInt16} (hplain : Plain unit) :
    unitsOf (scalar unit.toNat) = [unit] := by
  have hlt := unit.toNat_lt
  have hnat : (scalar unit.toNat).toNat = unit.toNat := by
    apply scalar_toNat
    rw [Plain] at hplain
    rw [Nat.isValidChar]
    omega
  rw [unitsOf_small (by omega), hnat, UInt16.ofNat_toNat]

theorem unitsOf_surrogatePair {high low : UInt16} (hhigh : isHighSurrogate high = true)
    (hlow : isLowSurrogate low = true) : unitsOf (surrogatePair high low) = [high, low] := by
  rw [isHighSurrogate_iff] at hhigh
  rw [isLowSurrogate_iff] at hlow
  have hnat : (surrogatePair high low).toNat =
      0x10000 + (high.toNat - 0xD800) * 0x400 + (low.toNat - 0xDC00) := by
    apply scalar_toNat
    rw [Nat.isValidChar]
    omega
  rw [unitsOf_large (by omega), hnat]
  have hfirst : 0xD800 + (0x10000 + (high.toNat - 0xD800) * 0x400 + (low.toNat - 0xDC00) -
      0x10000) / 0x400 = high.toNat := by omega
  have hsecond : 0xDC00 + (0x10000 + (high.toNat - 0xD800) * 0x400 + (low.toNat - 0xDC00) -
      0x10000) % 0x400 = low.toNat := by omega
  rw [hfirst, hsecond, UInt16.ofNat_toNat, UInt16.ofNat_toNat]

/-- Text without unpaired surrogates is encoded as it was read. -/
theorem encodeUtf16_of_decodeUtf16 (units : List UInt16) {text : List Char}
    (hdecode : decodeUtf16 units = text.map some) : encodeUtf16 text = units := by
  induction units using decodeUtf16.induct generalizing text with
  | case1 =>
    obtain rfl := List.map_eq_nil_iff.mp hdecode.symm
    rfl
  | case2 unit hsurrogate =>
    rw [decodeUtf16, if_pos hsurrogate] at hdecode
    obtain ⟨c, rest, rfl, hnone, -⟩ := List.map_eq_cons_iff.mp hdecode.symm
    cases hnone
  | case3 unit hsurrogate =>
    rw [Bool.not_eq_true, Bool.or_eq_false_iff] at hsurrogate
    have hplain : Plain unit := plain_iff.mpr
      ⟨Bool.not_eq_true _ ▸ hsurrogate.1, Bool.not_eq_true _ ▸ hsurrogate.2⟩
    rw [decodeUtf16_plain hplain] at hdecode
    obtain ⟨c, rest, rfl, hc, hrest⟩ := List.map_eq_cons_iff.mp hdecode.symm
    obtain rfl := List.map_eq_nil_iff.mp hrest
    rw [Option.some.inj hc, encodeUtf16_cons, unitsOf_scalar hplain]
    rfl
  | case4 unit next rest hhigh hlow ih =>
    rw [decodeUtf16_pair hhigh hlow] at hdecode
    obtain ⟨c, text, rfl, hc, hrest⟩ := List.map_eq_cons_iff.mp hdecode.symm
    rw [Option.some.inj hc, encodeUtf16_cons, unitsOf_surrogatePair hhigh hlow, ih hrest.symm]
    rfl
  | case5 unit next rest hhigh hlow ih =>
    simp only [decodeUtf16, hhigh, hlow, Bool.false_eq_true, if_true, if_false] at hdecode
    obtain ⟨c, text, rfl, hnone, -⟩ := List.map_eq_cons_iff.mp hdecode.symm
    cases hnone
  | case6 unit next rest hhigh hlow ih =>
    simp only [decodeUtf16, hhigh, hlow, Bool.false_eq_true, if_true, if_false] at hdecode
    obtain ⟨c, text, rfl, hnone, -⟩ := List.map_eq_cons_iff.mp hdecode.symm
    cases hnone
  | case7 unit next rest hhigh hlow ih =>
    have hplain : Plain unit := plain_iff.mpr ⟨hhigh, hlow⟩
    rw [decodeUtf16_plain hplain] at hdecode
    obtain ⟨c, text, rfl, hc, hrest⟩ := List.map_eq_cons_iff.mp hdecode.symm
    rw [Option.some.inj hc, encodeUtf16_cons, unitsOf_scalar hplain, ih hrest.symm]
    rfl

theorem mapM_id_eq_some_iff {α : Type} {options : List (Option α)} {values : List α} :
    options.mapM id = some values ↔ options = values.map some := by
  induction options generalizing values with
  | nil =>
    rw [List.mapM_nil, @eq_comm _ [], List.map_eq_nil_iff]
    exact ⟨fun h => (Option.some.inj h).symm, fun h => congrArg some h.symm⟩
  | cons option options ih =>
    rw [List.mapM_cons, @eq_comm _ (option :: options), List.map_eq_cons_iff]
    simp only [id_eq, Option.bind_eq_bind, Option.bind_eq_some_iff, Option.pure_def,
      Option.some.injEq, ih]
    constructor
    · rintro ⟨value, rfl, rest, rfl, rfl⟩
      exact ⟨value, rest, rfl, rfl, rfl⟩
    · rintro ⟨value, rest, rfl, rfl, rfl⟩
      exact ⟨value, rfl, rest, rfl, rfl⟩

/-- Units are a text exactly when they are its encoding. -/
theorem fromUtf16_eq_some_iff {units : List UInt16} {text : String} :
    fromUtf16 units = some text ↔ encodeUtf16 text.toList = units := by
  rw [fromUtf16, Option.map_eq_some_iff]
  constructor
  · rintro ⟨chars, hchars, rfl⟩
    rw [String.toList_ofList]
    exact encodeUtf16_of_decodeUtf16 units (mapM_id_eq_some_iff.mp hchars)
  · rintro rfl
    refine ⟨text.toList, ?_, String.ofList_toList⟩
    exact mapM_id_eq_some_iff.mpr (decodeUtf16_encodeUtf16 text.toList)

theorem putUnits_length (units : List UInt16) : (putUnits units).length = 2 * units.length := by
  induction units with
  | nil => rfl
  | cons unit units ih =>
    rw [putUnits, List.flatMap_cons, List.length_append, toLe_length, ← putUnits, ih,
      List.length_cons]
    omega

theorem unitsLe_putUnits (units : List UInt16) : unitsLe (putUnits units) = units := by
  induction units with
  | nil => rfl
  | cons unit units ih =>
    have hvalue : leNat (toLe 2 unit.toNat) = unit.toNat := by
      rw [leNat_toLe]
      exact Nat.mod_eq_of_lt unit.toNat_lt
    have hunit : getU16Le (toLe 2 unit.toNat) = unit :=
      ((getU16Le_eq_iff (toLe_length 2 _)).mpr hvalue).symm
    rw [putUnits, List.flatMap_cons, ← putUnits]
    exact congrArg₂ List.cons hunit ih

theorem unitsLe_length (bytes : List UInt8) : (unitsLe bytes).length = bytes.length / 2 := by
  induction bytes using unitsLe.induct with
  | case1 low high rest ih =>
    rw [unitsLe, List.length_cons, ih, List.length_cons, List.length_cons]
    omega
  | case2 bytes hshort =>
    cases bytes with
    | nil => rfl
    | cons low rest =>
      cases rest with
      | nil => exact (Nat.div_eq_of_lt (show 1 < 2 by decide)).symm
      | cons high rest => exact absurd rfl (hshort low high rest)

/-- Reading text with replacement characters leaves well-formed text alone. -/
theorem fromUtf16Lossy_encodeUtf16 (text : String) :
    fromUtf16Lossy (encodeUtf16 text.toList) = text := by
  rw [fromUtf16Lossy, decodeUtf16_encodeUtf16, List.map_map]
  have hid : ((fun unit : Option Char => unit.getD '\uFFFD') ∘ some) = id := rfl
  rw [hid, List.map_id, String.ofList_toList]

variable {env : Context} {bytes : List UInt8}

theorem readUnits_reads {count : ℕ} {units : List UInt16} :
    (readU16Le.times count).Reads env bytes units ↔
      units.length = count ∧ bytes = putUnits units := by
  have hpieces : ∀ pieces : List (List UInt8), List.Forall₂ (readU16Le.Reads env) pieces units ↔
      pieces = units.map fun unit => toLe 2 unit.toNat := by
    intro pieces
    rw [← List.forall₂_eq_eq_eq, List.forall₂_map_right_iff]
    constructor
    · exact fun hforall => hforall.imp fun _ _ hreads => readU16Le_reads.mp hreads
    · exact fun hforall => hforall.imp fun _ _ hreads => readU16Le_reads.mpr hreads
  rw [reads_times]
  simp only [hpieces, putUnits, List.flatMap_def]
  constructor
  · rintro ⟨hlength, pieces, hbytes, rfl⟩
    exact ⟨hlength, hbytes⟩
  · rintro ⟨hlength, hbytes⟩
    exact ⟨hlength, _, hbytes, rfl⟩

theorem readVarchar_reads {count : ℕ} {text : String} :
    (readVarchar count).Reads env bytes text ↔
      (encodeUtf16 text.toList).length = count ∧ bytes = putUnits (encodeUtf16 text.toList) := by
  simp only [readVarchar, bind_eq, reads_bind, readUnits_reads]
  constructor
  · rintro ⟨first, second, units, rfl, ⟨hlength, rfl⟩, hsecond⟩
    cases hunits : fromUtf16 units with
    | none =>
      rw [hunits] at hsecond
      exact (reads_fail.mp hsecond).elim
    | some other =>
      rw [hunits] at hsecond
      obtain ⟨rfl, rfl⟩ := reads_ret.mp hsecond
      rw [fromUtf16_eq_some_iff.mp hunits, List.append_nil]
      exact ⟨hlength, rfl⟩
  · rintro ⟨rfl, rfl⟩
    refine ⟨_, [], _, (List.append_nil _).symm, ⟨rfl, rfl⟩, ?_⟩
    rw [fromUtf16_eq_some_iff.mpr rfl]
    exact ret_reads _

theorem readBVarchar_reads {text : String} :
    readBVarchar.Reads env bytes text ↔ encodeBVarchar text = .ok bytes := by
  simp only [readBVarchar, bind_eq, reads_bind, readU8_reads, readVarchar_reads, encodeBVarchar]
  constructor
  · rintro ⟨first, second, count, rfl, rfl, hcount, rfl⟩
    have hlt := count.toNat_lt
    rw [if_neg (by omega), hcount, UInt8.ofNat_toNat]
    rfl
  · intro hencode
    split_ifs at hencode with hlong
    obtain rfl := Except.ok.inj hencode
    refine ⟨[_], _, _, rfl, rfl, ?_, rfl⟩
    rw [UInt8.toNat_ofNat']
    omega

/-- `encode_us_varchar`: the count is two bytes. -/
def encodeUsVarchar (text : String) : Except Error (List UInt8) :=
  let units := encodeUtf16 text.toList
  if 65535 < units.length then
    .error (.protocol ("string is too long for a US_VARCHAR (" ++ toString units.length ++
      " UTF-16 code units, max 65535)"))
  else .ok (toLe 2 (UInt16.ofNat units.length).toNat ++ putUnits units)

theorem readUsVarchar_reads {text : String} :
    readUsVarchar.Reads env bytes text ↔ encodeUsVarchar text = .ok bytes := by
  simp only [readUsVarchar, bind_eq, reads_bind, readU16Le_reads, readVarchar_reads,
    encodeUsVarchar]
  constructor
  · rintro ⟨first, second, count, rfl, rfl, hcount, rfl⟩
    have hlt := count.toNat_lt
    rw [if_neg (by omega), hcount, UInt16.ofNat_toNat]
  · intro hencode
    split_ifs at hencode with hlong
    obtain rfl := Except.ok.inj hencode
    refine ⟨_, _, _, rfl, rfl, ?_, rfl⟩
    rw [UInt16.toNat_ofNat']
    omega

end Text

end Tiberius
