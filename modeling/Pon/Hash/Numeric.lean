import Mathlib.Algebra.Order.Ring.Int
import Mathlib.Data.Nat.ModEq
import Mathlib.Tactic.Ring

/-!
# Numeric hashes

The hashes of `int`, `float` and `complex` and the comparison of a float with an integer, on IEEE
bit patterns. A machine word `isize` is a `BitVec 64`, a big integer is an `ℤ`. The main facts are
that a float with an integral value hashes as that integer does, and that a finite integral float is
determined by its value up to the sign of zero.
-/

namespace Pon.Hash

/-- A double, as its bit pattern. -/
abbrev F64 := BitVec 64

def hashModulus : ℕ := 2 ^ 61 - 1

/-! ## Bit patterns -/

def expBits (value : F64) : ℕ :=
  ((value >>> 52) &&& 0x7ff#64).toNat

def frac (value : F64) : ℕ :=
  (value &&& ((1#64 <<< 52) - 1#64)).toNat

def isNegative (value : F64) : Bool :=
  value >>> 63 != 0#64

def isNan (value : F64) : Bool :=
  expBits value == 0x7ff && frac value != 0

def isInfinite (value : F64) : Bool :=
  expBits value == 0x7ff && frac value == 0

def isFinite (value : F64) : Bool :=
  expBits value != 0x7ff

/-- The comparison `value == 0.0`, true of both zeros. -/
def isZero (value : F64) : Bool :=
  expBits value == 0 && frac value == 0

/-- The IEEE comparison `left == right`. -/
def floatEq (left right : F64) : Bool :=
  !isNan left && !isNan right && (left == right || isZero left && isZero right)

/-- Significand and binary exponent of a finite double. -/
def decode (value : F64) : ℕ × ℤ :=
  if expBits value = 0 then
    (frac value, 1 - 1023 - 52)
  else
    (1 <<< 52 ||| frac value, expBits value - 1023 - 52)

/-- The test `value.fract() != 0.0` of a finite double. -/
def hasFraction (value : F64) : Bool :=
  match decode value with
  | (_, .ofNat _) => false
  | (mantissa, .negSucc n) => mantissa % 2 ^ (n + 1) != 0

def bigintFromF64Trunc (value : F64) : Option ℤ :=
  if !isFinite value then
    none
  else if isZero value then
    some 0
  else
    let magnitude : ℤ :=
      match decode value with
      | (mantissa, .ofNat exponent) => ((mantissa <<< exponent : ℕ) : ℤ)
      | (mantissa, .negSucc n) => ((mantissa >>> (n + 1) : ℕ) : ℤ)
    some (if isNegative value then -magnitude else magnitude)

def floatEqualsInt (float : F64) (integer : ℤ) : Bool :=
  if !isFinite float || hasFraction float then
    false
  else
    bigintFromF64Trunc float == some integer

/-! ## Hash functions -/

/-- The end of both numeric hashes: the sign is put back and minus one, the error value of the
runtime, is replaced. -/
def signHash (negative : Bool) (magnitude : ℕ) : BitVec 64 :=
  let reduced : ℤ := if negative then -magnitude else magnitude
  if reduced = -1 then BitVec.ofInt 64 (-2) else BitVec.ofInt 64 reduced

def hashBigint (value : ℤ) : BitVec 64 :=
  signHash (value < 0) (value.natAbs % hashModulus)

def pow2Mod (exponent : ℕ) : ℕ :=
  let shift := exponent % 61
  if shift = 0 then 1 else (1 <<< shift) % hashModulus

/-- The loop of `hash_f64` that halves an even significand while the exponent is negative; the
second component is the exponent's distance from zero. -/
def stripZeros (mantissa : ℕ) : ℕ → ℕ × ℕ
  | 0 => (mantissa, 0)
  | n + 1 => if mantissa &&& 1 = 0 then stripZeros (mantissa >>> 1) n else (mantissa, n + 1)

/-- The reduction of a significand and a negative exponent. -/
def hashFraction (mantissa : ℕ) : ℕ → ℕ
  | 0 => (mantissa % hashModulus * pow2Mod 0) % hashModulus
  | n + 1 =>
    let denomPower := (n + 1) % 61
    let inversePower := if denomPower = 0 then 0 else 61 - denomPower
    (mantissa % hashModulus * pow2Mod inversePower) % hashModulus

def hashF64 (value : F64) : BitVec 64 :=
  if isZero value then
    0#64
  else if isNan value then
    if value = BitVec.ofInt 64 (-1) then BitVec.ofInt 64 (-2) else value
  else if isInfinite value then
    if isNegative value then BitVec.ofInt 64 (-314159) else BitVec.ofInt 64 314159
  else
    match decode value with
    | (mantissa, .ofNat exponent) =>
      signHash (isNegative value) ((mantissa % hashModulus * pow2Mod exponent) % hashModulus)
    | (mantissa, .negSucc n) =>
      let (mantissa, distance) := stripZeros mantissa (n + 1)
      signHash (isNegative value) (hashFraction mantissa distance)

def hashComplex (real imag : F64) : BitVec 64 :=
  let hash := hashF64 real + 1000003#64 * hashF64 imag
  if hash = BitVec.ofInt 64 (-1) then BitVec.ofInt 64 (-2) else hash

/-! ## Decoding -/

theorem expBits_eq (value : F64) : expBits value = value.toNat / 2 ^ 52 % 2 ^ 11 := by
  simp only [expBits, BitVec.toNat_and, BitVec.toNat_ushiftRight, Nat.shiftRight_eq_div_pow]
  exact Nat.and_two_pow_sub_one_eq_mod _ 11

theorem frac_eq (value : F64) : frac value = value.toNat % 2 ^ 52 := by
  simp only [frac, BitVec.toNat_and]
  exact Nat.and_two_pow_sub_one_eq_mod _ 52

theorem isNegative_iff (value : F64) : isNegative value = true ↔ 2 ^ 63 ≤ value.toNat := by
  have hlt := value.isLt
  simp only [isNegative, bne_iff_ne, ne_eq, ← BitVec.toNat_inj, BitVec.toNat_ushiftRight,
    Nat.shiftRight_eq_div_pow]
  simp

theorem expBits_lt (value : F64) : expBits value < 2 ^ 11 := by
  rw [expBits_eq]
  exact Nat.mod_lt _ (by norm_num)

theorem frac_lt (value : F64) : frac value < 2 ^ 52 := by
  rw [frac_eq]
  exact Nat.mod_lt _ (by norm_num)

variable {a b value : F64} {integer : ℤ}

/-- A double is determined by its sign, exponent field and fraction field. -/
theorem eq_of_fields (hsign : isNegative a = isNegative b) (hexp : expBits a = expBits b)
    (hfrac : frac a = frac b) : a = b := by
  have ha := a.isLt
  have hb := b.isLt
  have hiff : 2 ^ 63 ≤ a.toNat ↔ 2 ^ 63 ≤ b.toNat := by
    rw [← isNegative_iff, ← isNegative_iff, hsign]
  rw [expBits_eq, expBits_eq] at hexp
  rw [frac_eq, frac_eq] at hfrac
  apply BitVec.eq_of_toNat_eq
  omega

/-- One, in units of the smallest positive double `2 ^ (-1074)`. -/
def scale : ℕ := 2 ^ 1074

theorem scale_pos : 0 < scale := by
  have pos (n : ℕ) : 0 < 2 ^ n := Nat.two_pow_pos n
  exact pos _

/-- Magnitude of a finite double in units of `2 ^ (-1074)`. -/
def units (value : F64) : ℕ :=
  if expBits value = 0 then frac value else (2 ^ 52 + frac value) * 2 ^ (expBits value - 1)

theorem mantissa_eq (value : F64) : 1 <<< 52 ||| frac value = 2 ^ 52 + frac value := by
  have h := Nat.two_pow_add_eq_or_of_lt (frac_lt value) 1
  simpa using h.symm

/-- The decoded significand and exponent give the magnitude of the double. -/
theorem decode_units (value : F64) :
    match decode value with
    | (mantissa, .ofNat exponent) => units value = mantissa * 2 ^ exponent * scale
    | (mantissa, .negSucc n) => units value * 2 ^ (n + 1) = mantissa * scale := by
  have hlt := expBits_lt value
  unfold decode units
  by_cases hzero : expBits value = 0
  · have hexp : (1 : ℤ) - 1023 - 52 = Int.negSucc 1073 := by decide
    simp only [hzero, if_true, hexp]
    rw [scale]
  · simp only [hzero, if_false, mantissa_eq]
    by_cases hlarge : 1075 ≤ expBits value
    · obtain ⟨e, he⟩ : ∃ e, expBits value = 1075 + e := ⟨expBits value - 1075, by omega⟩
      have hexp : (expBits value : ℤ) - 1023 - 52 = Int.ofNat e := by
        simp only [he, Int.ofNat_eq_natCast]
        omega
      simp only [hexp]
      rw [he, show 1075 + e - 1 = e + 1074 by omega, pow_add, scale, mul_assoc]
    · obtain ⟨n, hn⟩ : ∃ n, expBits value = 1074 - n ∧ n ≤ 1073 :=
        ⟨1074 - expBits value, by omega, by omega⟩
      have hexp : (expBits value : ℤ) - 1023 - 52 = Int.negSucc n := by
        rw [Int.negSucc_eq, hn.1]
        omega
      simp only [hexp]
      rw [hn.1, mul_assoc, ← pow_add, show 1074 - n - 1 + (n + 1) = 1074 by omega, scale]

theorem hasFraction_iff (value : F64) :
    hasFraction value = false ↔ scale ∣ units value := by
  have h := decode_units value
  unfold hasFraction
  split at h
  · rename_i m e _
    simp only [h, true_iff]
    exact Dvd.intro_left _ rfl
  · rename_i m n _
    have hiff : 2 ^ (n + 1) ∣ m ↔ scale ∣ units value := by
      constructor
      · rintro ⟨q, rfl⟩
        refine ⟨q, Nat.eq_of_mul_eq_mul_right (Nat.two_pow_pos (n + 1)) ?_⟩
        rw [h]
        ring
      · rintro ⟨q, hq⟩
        refine ⟨q, Nat.eq_of_mul_eq_mul_right scale_pos ?_⟩
        rw [← h, hq]
        ring
    simp only [bne_eq_false_iff_eq, ← hiff]
    exact (Nat.dvd_iff_mod_eq_zero).symm

theorem isZero_iff (value : F64) : isZero value = true ↔ units value = 0 := by
  unfold isZero units
  by_cases hzero : expBits value = 0
  · simp [hzero]
  · have hpos : 0 < (2 ^ 52 + frac value) * 2 ^ (expBits value - 1) :=
      Nat.mul_pos (by omega) (Nat.two_pow_pos _)
    simp [hzero]

/-- The truncated integer of a finite double without a fraction. -/
theorem bigintFromF64Trunc_of_integral {q : ℕ} (hfinite : isFinite value = true)
    (hunits : units value = q * scale) :
    bigintFromF64Trunc value = some (if isNegative value then -(q : ℤ) else q) := by
  unfold bigintFromF64Trunc
  simp only [hfinite, Bool.not_true, Bool.false_eq_true, if_false]
  by_cases hzero : isZero value
  · have hq : q = 0 := by
      rw [isZero_iff, hunits] at hzero
      simpa [scale_pos.ne'] using hzero
    simp [hzero, hq]
  · simp only [hzero, Bool.false_eq_true, if_false]
    have h := decode_units value
    split at h
    · rename_i m e _
      have hq : m * 2 ^ e = q := Nat.eq_of_mul_eq_mul_right scale_pos (by rw [← h, hunits])
      simp only [Nat.shiftLeft_eq, hq]
    · rename_i m n _
      have hm : m = q * 2 ^ (n + 1) := by
        apply Nat.eq_of_mul_eq_mul_right scale_pos
        rw [← h, hunits]
        ring
      have hq : m / 2 ^ (n + 1) = q := by
        rw [hm, Nat.mul_div_cancel _ (Nat.two_pow_pos _)]
      simp only [Nat.shiftRight_eq_div_pow, hq]

/-- The exponent and fraction fields can be read off the magnitude. -/
theorem fields_of_units_eq (h : units a = units b) : expBits a = expBits b ∧ frac a = frac b := by
  have hfa := frac_lt a
  have hfb := frac_lt b
  have hpos : ∀ v : F64, expBits v ≠ 0 → 2 ^ 52 ≤ units v := by
    intro v hv
    simp only [units, hv, if_false]
    exact le_trans (Nat.le_add_right _ (frac v)) (Nat.le_mul_of_pos_right _ (Nat.two_pow_pos _))
  -- A larger exponent field makes the magnitude larger by a factor of at least two.
  have hlt : ∀ v w : F64, expBits v ≠ 0 → expBits v < expBits w → units v < units w := by
    intro v w hv hvw
    have hw : expBits w ≠ 0 := by omega
    obtain ⟨d, hd⟩ : ∃ d, expBits w - 1 = expBits v - 1 + (d + 1) :=
      ⟨expBits w - expBits v - 1, by omega⟩
    have hfv := frac_lt v
    simp only [units, hv, hw, if_false, hd, pow_add _ (expBits v - 1)]
    calc
      (2 ^ 52 + frac v) * 2 ^ (expBits v - 1)
          < 2 ^ 52 * 2 * 2 ^ (expBits v - 1) :=
            Nat.mul_lt_mul_of_pos_right (by omega) (Nat.two_pow_pos _)
      _ ≤ (2 ^ 52 + frac w) * 2 ^ (d + 1) * 2 ^ (expBits v - 1) := by
            apply Nat.mul_le_mul_right
            apply Nat.mul_le_mul (Nat.le_add_right _ _)
            rw [pow_succ]
            exact Nat.le_mul_of_pos_left _ (Nat.two_pow_pos d)
      _ = (2 ^ 52 + frac w) * (2 ^ (expBits v - 1) * 2 ^ (d + 1)) := by ring
  by_cases ha : expBits a = 0
  · by_cases hb : expBits b = 0
    · refine ⟨by rw [ha, hb], ?_⟩
      simpa [units, ha, hb] using h
    · have := hpos b hb
      have hua : units a = frac a := by simp [units, ha]
      omega
  · by_cases hb : expBits b = 0
    · have := hpos a ha
      have hub : units b = frac b := by simp [units, hb]
      omega
    · rcases Nat.lt_trichotomy (expBits a) (expBits b) with hab | hab | hab
      · have := hlt a b ha hab
        omega
      · refine ⟨hab, ?_⟩
        simp only [units, hb, if_false, hab] at h
        have := Nat.eq_of_mul_eq_mul_right (Nat.two_pow_pos _) h
        omega
      · have := hlt b a hb hab
        omega

/-! ## Comparison -/

/-- The integer that a double is equal to. -/
def toInt? (value : F64) : Option ℤ :=
  if isFinite value && !hasFraction value then bigintFromF64Trunc value else none

theorem floatEqualsInt_iff (value : F64) (integer : ℤ) :
    floatEqualsInt value integer = true ↔ toInt? value = some integer := by
  unfold floatEqualsInt toInt?
  cases isFinite value <;> cases hasFraction value <;> simp

theorem toInt?_eq_some (h : toInt? value = some integer) :
    ∃ q : ℕ, isFinite value = true ∧ units value = q * scale ∧
      integer = if isNegative value then -(q : ℤ) else q := by
  unfold toInt? at h
  split at h
  · rename_i hcond
    obtain ⟨hfinite, hfraction⟩ := Bool.and_eq_true_iff.mp hcond
    obtain ⟨q, hq⟩ := (hasFraction_iff value).mp (by simpa using hfraction)
    have hunits : units value = q * scale := by rw [hq, mul_comm]
    rw [bigintFromF64Trunc_of_integral hfinite hunits] at h
    exact ⟨q, hfinite, hunits, (Option.some.inj h).symm⟩
  · cases h

theorem toInt?_of_isZero (h : isZero value = true) : toInt? value = some 0 := by
  have hunits := (isZero_iff value).mp h
  have hexp : expBits value = 0 := by
    unfold isZero at h
    simp only [Bool.and_eq_true, beq_iff_eq] at h
    exact h.1
  have hfinite : isFinite value = true := by simp [isFinite, hexp]
  have hfraction : hasFraction value = false := by
    rw [hasFraction_iff, hunits]
    exact dvd_zero _
  unfold toInt?
  simp only [hfinite, hfraction, Bool.not_false, Bool.and_self, if_true]
  rw [bigintFromF64Trunc_of_integral hfinite (by rw [hunits, zero_mul])]
  simp

theorem not_isNan_of_isFinite (h : isFinite value = true) : isNan value = false := by
  unfold isFinite at h
  simp only [bne_iff_ne] at h
  simp [isNan, h]

/-- Two doubles equal to the same integer are equal as doubles. -/
theorem floatEq_of_toInt?_eq (ha : toInt? a = some integer) (hb : toInt? b = some integer) :
    floatEq a b = true := by
  obtain ⟨p, hfa, hua, hpa⟩ := toInt?_eq_some ha
  obtain ⟨q, hfb, hub, hqb⟩ := toInt?_eq_some hb
  have hpq : p = q := by
    rw [hpa] at hqb
    split at hqb <;> split at hqb <;> omega
  simp only [floatEq, not_isNan_of_isFinite hfa, not_isNan_of_isFinite hfb, Bool.not_false,
    Bool.true_and, Bool.or_eq_true, beq_iff_eq, Bool.and_eq_true]
  by_cases hzero : q = 0
  · right
    rw [isZero_iff, isZero_iff, hua, hub, hpq, hzero]
    simp
  · left
    obtain ⟨hexp, hfrac⟩ := fields_of_units_eq (hua.trans (hpq ▸ hub.symm))
    refine eq_of_fields ?_ hexp hfrac
    rw [hpa] at hqb
    cases hna : isNegative a <;> cases hnb : isNegative b <;> simp [hna, hnb] at hqb ⊢ <;> omega

/-! ## Hashes of equal numbers -/

theorem pow2Mod_mod (exponent : ℕ) : pow2Mod exponent % hashModulus = 2 ^ exponent % hashModulus := by
  have hone : 2 ^ 61 ≡ 1 [MOD hashModulus] := by decide
  have hmod : 2 ^ exponent ≡ 2 ^ (exponent % 61) [MOD hashModulus] := by
    calc
      2 ^ exponent = (2 ^ 61) ^ (exponent / 61) * 2 ^ (exponent % 61) := by
            rw [← pow_mul, ← pow_add, Nat.div_add_mod]
      _ ≡ 1 ^ (exponent / 61) * 2 ^ (exponent % 61) [MOD hashModulus] :=
            Nat.ModEq.mul_right _ (hone.pow _)
      _ = 2 ^ (exponent % 61) := by rw [one_pow, one_mul]
  rw [hmod]
  unfold pow2Mod
  by_cases hshift : exponent % 61 = 0
  · simp [hshift]
  · simp only [hshift, if_false, Nat.shiftLeft_eq, one_mul, Nat.mod_mod]

theorem mul_pow2Mod (mantissa exponent : ℕ) :
    (mantissa % hashModulus * pow2Mod exponent) % hashModulus =
      mantissa * 2 ^ exponent % hashModulus := by
  rw [Nat.mul_mod, Nat.mod_mod, pow2Mod_mod, ← Nat.mul_mod]

theorem stripZeros_mul_pow (q n : ℕ) : stripZeros (q * 2 ^ n) n = (q, 0) := by
  induction n with
  | zero => simp [stripZeros]
  | succ n ih =>
    have heven : q * 2 ^ (n + 1) &&& 1 = 0 := by
      rw [Nat.and_one_is_mod, pow_succ, ← mul_assoc, Nat.mul_mod_left]
    have hhalf : (q * 2 ^ (n + 1)) >>> 1 = q * 2 ^ n := by
      rw [Nat.shiftRight_one, pow_succ, ← mul_assoc, Nat.mul_div_cancel _ (by norm_num)]
    rw [stripZeros, if_pos heven, hhalf, ih]

/-- A double that is equal to an integer hashes as the integer. -/
theorem hashF64_of_toInt? (h : toInt? value = some integer) :
    hashF64 value = hashBigint integer := by
  obtain ⟨q, hfinite, hunits, hinteger⟩ := toInt?_eq_some h
  by_cases hzero : isZero value = true
  · rw [toInt?_of_isZero hzero] at h
    rw [← Option.some.inj h, hashF64, if_pos hzero]
    decide
  · have hq : 0 < q := by
      rw [isZero_iff, hunits] at hzero
      exact Nat.pos_of_ne_zero fun hq ↦ hzero (by rw [hq, zero_mul])
    have hinfinite : isInfinite value = false := by
      unfold isFinite at hfinite
      simp only [bne_iff_ne] at hfinite
      simp [isInfinite, hfinite]
    have hnatAbs : integer.natAbs = q := by
      rw [hinteger]
      split <;> simp
    have hsign : decide (integer < 0) = isNegative value := by
      rw [hinteger]
      cases isNegative value <;> simp [hq]
    have hunits' := decode_units value
    unfold hashF64 hashBigint
    simp only [hzero, Bool.false_eq_true, if_false, not_isNan_of_isFinite hfinite, hinfinite, hnatAbs,
      hsign]
    split at hunits'
    · rename_i m e _
      have hm : m * 2 ^ e = q := Nat.eq_of_mul_eq_mul_right scale_pos (by rw [← hunits', hunits])
      simp only [mul_pow2Mod, hm]
    · rename_i m n _
      have hm : m = q * 2 ^ (n + 1) := by
        apply Nat.eq_of_mul_eq_mul_right scale_pos
        rw [← hunits', hunits]
        ring
      simp only [hm, stripZeros_mul_pow, hashFraction, mul_pow2Mod, pow_zero, mul_one]

theorem ofInt_ne_neg_one {z : ℤ} (hz : z ≠ -1) (hlow : -2 ^ 63 ≤ z) (hhigh : z < 2 ^ 63) :
    BitVec.ofInt 64 z ≠ BitVec.ofInt 64 (-1) := by
  intro heq
  have htoInt := congrArg BitVec.toInt heq
  rw [BitVec.toInt_ofInt_eq_self (by norm_num) hlow hhigh] at htoInt
  exact hz htoInt

theorem hashFraction_lt (mantissa distance : ℕ) : hashFraction mantissa distance < hashModulus := by
  cases distance <;> exact Nat.mod_lt _ (by decide)

theorem signHash_ne_neg_one (negative : Bool) {m : ℕ} (hm : m < hashModulus) :
    signHash negative m ≠ BitVec.ofInt 64 (-1) := by
  have hbound : m < 2 ^ 61 - 1 := hm
  unfold signHash
  dsimp only
  generalize hreduced : (if negative = true then -(m : ℤ) else m) = reduced
  by_cases heq : reduced = -1
  · rw [if_pos heq]
    decide
  · rw [if_neg heq]
    apply ofInt_ne_neg_one heq
    · split at hreduced <;> omega
    · split at hreduced <;> omega

/-- The reserved value minus one is never the hash of a double. -/
theorem hashF64_ne_neg_one (value : F64) : hashF64 value ≠ BitVec.ofInt 64 (-1) := by
  unfold hashF64
  split
  · decide
  · split
    · split
      · decide
      · assumption
    · split
      · split <;> decide
      · split
        · exact signHash_ne_neg_one _ (Nat.mod_lt _ (by decide))
        · exact signHash_ne_neg_one _ (hashFraction_lt _ _)

/-! ## Canonical keys -/

/-- A real number that is not NaN, up to numeric equality: an integer, or a double that is equal to
no integer. -/
inductive RealKey
  | integer (value : ℤ)
  | double (value : F64)
deriving DecidableEq

def realKey (value : F64) : Option RealKey :=
  if isNan value then
    none
  else
    match toInt? value with
    | some integer => some (.integer integer)
    | none => some (.double value)

theorem floatEq_iff_realKey (a b : F64) :
    floatEq a b = true ↔ realKey a ≠ none ∧ realKey a = realKey b := by
  constructor
  · intro h
    simp only [floatEq, Bool.and_eq_true, Bool.not_eq_true', Bool.or_eq_true, beq_iff_eq] at h
    obtain ⟨⟨hna, hnb⟩, rfl | ⟨ha, hb⟩⟩ := h
    · refine ⟨?_, rfl⟩
      simp only [realKey, hna, Bool.false_eq_true, if_false]
      split <;> simp
    · simp [realKey, hna, hnb, toInt?_of_isZero ha, toInt?_of_isZero hb]
  · rintro ⟨hne, heq⟩
    unfold realKey at hne heq
    cases hna : isNan a with
    | true => simp [hna] at hne
    | false =>
      cases hnb : isNan b with
      | true => simp_all
      | false =>
        simp only [hna, hnb, Bool.false_eq_true, if_false] at heq
        cases ha : toInt? a with
        | some p =>
          cases hb : toInt? b with
          | some q =>
            simp only [ha, hb, Option.some.injEq, RealKey.integer.injEq] at heq
            exact floatEq_of_toInt?_eq ha (heq ▸ hb)
          | none => simp [ha, hb] at heq
        | none =>
          cases hb : toInt? b with
          | some q => simp [ha, hb] at heq
          | none =>
            simp only [ha, hb, Option.some.injEq, RealKey.double.injEq] at heq
            simp [floatEq, hnb, heq]

theorem realKey_eq_integer_iff (value : F64) (integer : ℤ) :
    realKey value = some (.integer integer) ↔ floatEqualsInt value integer = true := by
  rw [floatEqualsInt_iff]
  unfold realKey
  cases htoInt : toInt? value with
  | some q =>
    obtain ⟨_, hfinite, _⟩ := toInt?_eq_some htoInt
    simp [not_isNan_of_isFinite hfinite]
  | none =>
    cases isNan value <;> simp

theorem isZero_iff_realKey (value : F64) :
    isZero value = true ↔ realKey value = some (.integer 0) := by
  rw [realKey_eq_integer_iff, floatEqualsInt_iff]
  constructor
  · exact toInt?_of_isZero
  · intro h
    obtain ⟨q, _, hunits, hzero⟩ := toInt?_eq_some h
    have hq : q = 0 := by
      split at hzero <;> omega
    rw [isZero_iff, hunits, hq, zero_mul]

end Pon.Hash
