import Mathlib.Data.Nat.Digits.Defs

/-!
# Byte strings as integers

The values of a little-endian byte string without and with a sign. In two's complement the last byte
holds the sign, and a string may be extended by bytes of its sign.
-/

namespace Pon.Bytes

/-- The value of a byte string, least significant byte first. -/
def unsignedLe (bytes : List UInt8) : ℕ := Nat.ofDigits 256 (bytes.map UInt8.toNat)

variable (bytes : List UInt8)

theorem toNat_lt_of_mem : ∀ digit ∈ bytes.map UInt8.toNat, digit < 256 := by
  intro digit mem
  obtain ⟨byte, -, rfl⟩ := List.mem_map.mp mem
  exact byte.toNat_lt

theorem unsignedLe_lt : unsignedLe bytes < 256 ^ bytes.length := by
  have bound := Nat.ofDigits_lt_base_pow_length (by decide : 1 < 256) (toNat_lt_of_mem bytes)
  rwa [List.length_map] at bound

theorem unsignedLe_append (left right : List UInt8) :
    unsignedLe (left ++ right) = unsignedLe left + 256 ^ left.length * unsignedLe right := by
  rw [unsignedLe, List.map_append, Nat.ofDigits_append, List.length_map]
  rfl

@[simp]
theorem unsignedLe_nil : unsignedLe [] = 0 := rfl

variable (byte : UInt8)

@[simp]
theorem unsignedLe_singleton : unsignedLe [byte] = byte.toNat := by
  simp [unsignedLe]

theorem unsignedLe_cons :
    unsignedLe (byte :: bytes) = byte.toNat + 256 * unsignedLe bytes := by
  have split := unsignedLe_append [byte] bytes
  rwa [unsignedLe_singleton, List.length_singleton, pow_one] at split

/-- Strings of one length are told apart by their values. -/
theorem unsignedLe_inj {left right : List UInt8} (length : left.length = right.length)
    (value : unsignedLe left = unsignedLe right) : left = right := by
  have digits : left.map UInt8.toNat = right.map UInt8.toNat := by
    refine Nat.ofDigits_inj_of_len_eq (by decide : 1 < 256) ?_ (toNat_lt_of_mem left) (toNat_lt_of_mem right) value
    rw [List.length_map, List.length_map, length]
  exact (List.map_inj_right fun _ _ h ↦ UInt8.toNat_inj.mp h).mp digits

/-- Whether the last byte has its sign bit set. -/
def isNegative (bytes : List UInt8) : Bool := bytes.getLast?.any fun byte ↦ 128 ≤ byte

/-- The value in two's complement. -/
def signedLe (bytes : List UInt8) : ℤ :=
  if isNegative bytes then unsignedLe bytes - 256 ^ bytes.length else unsignedLe bytes

theorem isNegative_append_singleton :
    isNegative (bytes ++ [byte]) = decide (128 ≤ byte) := by
  simp [isNegative]

/-- The sign bit tells in which half the value lies. -/
theorem isNegative_iff :
    isNegative bytes = true ↔ 256 ^ bytes.length ≤ 2 * unsignedLe bytes := by
  rcases List.eq_nil_or_concat bytes with rfl | ⟨init, byte, rfl⟩
  · simp [isNegative]
  · have low := unsignedLe_lt init
    have sign : 128 ≤ byte ↔ 128 ≤ byte.toNat := UInt8.le_iff_toNat_le
    rw [List.concat_eq_append, isNegative_append_singleton, decide_eq_true_eq, sign,
      unsignedLe_append, unsignedLe_singleton, List.length_append, List.length_singleton, pow_succ]
    constructor
    · intro high
      nlinarith
    · intro high
      by_contra small
      have bound : 256 ^ init.length * byte.toNat ≤ 256 ^ init.length * 127 :=
        Nat.mul_le_mul_left _ (by omega)
      omega

theorem signedLe_bounds :
    -256 ^ bytes.length ≤ 2 * signedLe bytes ∧ 2 * signedLe bytes < 256 ^ bytes.length := by
  have bound : (unsignedLe bytes : ℤ) < 256 ^ bytes.length := by exact_mod_cast unsignedLe_lt bytes
  have sign := isNegative_iff bytes
  unfold signedLe
  split_ifs with negative
  · have high : (256 : ℤ) ^ bytes.length ≤ 2 * unsignedLe bytes := by
      exact_mod_cast sign.mp negative
    constructor <;> linarith
  · have low : (2 : ℤ) * unsignedLe bytes < 256 ^ bytes.length := by
      exact_mod_cast Nat.lt_of_not_le fun high ↦ negative (sign.mpr high)
    constructor <;> linarith [Int.natCast_nonneg (unsignedLe bytes)]

theorem signedLe_neg_iff : signedLe bytes < 0 ↔ isNegative bytes = true := by
  have bound : (unsignedLe bytes : ℤ) < 256 ^ bytes.length := by exact_mod_cast unsignedLe_lt bytes
  unfold signedLe
  split_ifs with negative
  · exact ⟨fun _ ↦ negative, fun _ ↦ by linarith⟩
  · refine ⟨fun h ↦ ?_, fun h ↦ absurd h negative⟩
    linarith [Int.natCast_nonneg (unsignedLe bytes)]

theorem signedLe_inj {left right : List UInt8} (length : left.length = right.length)
    (value : signedLe left = signedLe right) : left = right := by
  refine unsignedLe_inj length ?_
  have sign : isNegative left = isNegative right := by
    rw [Bool.eq_iff_iff, ← signedLe_neg_iff, ← signedLe_neg_iff, value]
  unfold signedLe at value
  rw [sign, length] at value
  split_ifs at value <;> omega

/-- The byte that extends a string. -/
def signByte (bytes : List UInt8) : UInt8 := if isNegative bytes then 255 else 0

theorem signedLe_append_signByte :
    signedLe (bytes ++ [signByte bytes]) = signedLe bytes ∧
      isNegative (bytes ++ [signByte bytes]) = isNegative bytes := by
  have sign : isNegative (bytes ++ [signByte bytes]) = isNegative bytes := by
    rw [isNegative_append_singleton, signByte]
    split_ifs with negative
    · rw [negative]
      rfl
    · rw [Bool.not_eq_true] at negative
      rw [negative]
      rfl
  refine ⟨?_, sign⟩
  rw [signedLe, sign, signedLe, unsignedLe_append, unsignedLe_singleton, signByte]
  split_ifs
  · rw [List.length_append, List.length_singleton, pow_succ]
    have top : (255 : UInt8).toNat = 255 := rfl
    rw [top]
    push_cast
    ring
  · simp

/-- Bytes of the sign do not change the value. -/
theorem signedLe_append_replicate (count : ℕ) :
    signedLe (bytes ++ List.replicate count (signByte bytes)) = signedLe bytes := by
  induction count generalizing bytes with
  | zero => rw [List.replicate_zero, List.append_nil]
  | succ count ih =>
    obtain ⟨value, sign⟩ := signedLe_append_signByte bytes
    have same : signByte (bytes ++ [signByte bytes]) = signByte bytes := by
      rw [signByte, sign, signByte]
    have later := ih (bytes ++ [signByte bytes])
    rw [same, value, List.append_assoc, List.singleton_append] at later
    rw [List.replicate_succ]
    exact later

theorem unsignedLe_append_replicate (count : ℕ) :
    unsignedLe (bytes ++ List.replicate count 0) = unsignedLe bytes := by
  induction count generalizing bytes with
  | zero => rw [List.replicate_zero, List.append_nil]
  | succ count ih =>
    have later := ih (bytes ++ [0])
    have zero : unsignedLe (bytes ++ [0]) = unsignedLe bytes := by
      rw [unsignedLe_append, unsignedLe_singleton]
      rfl
    rw [List.append_assoc, List.singleton_append, zero] at later
    rw [List.replicate_succ]
    exact later

/-- The low bytes of a value. -/
def fixedLe : ℕ → ℕ → List UInt8
  | 0, _ => []
  | length + 1, value => UInt8.ofNat (value % 256) :: fixedLe length (value / 256)

@[simp]
theorem length_fixedLe (length value : ℕ) : (fixedLe length value).length = length := by
  induction length generalizing value with
  | zero => rfl
  | succ length ih => rw [fixedLe, List.length_cons, ih]

theorem unsignedLe_fixedLe (length value : ℕ) :
    unsignedLe (fixedLe length value) = value % 256 ^ length := by
  induction length generalizing value with
  | zero => rw [fixedLe, unsignedLe_nil, pow_zero, Nat.mod_one]
  | succ length ih =>
    have byte : (UInt8.ofNat (value % 256)).toNat = value % 256 :=
      UInt8.toNat_ofNat_of_lt (Nat.mod_lt _ (by decide))
    rw [fixedLe, unsignedLe_cons, byte, ih, pow_succ', Nat.mod_mul]

/-- The low bytes of a number in range are its two's complement. -/
theorem signedLe_fixedLe {length : ℕ} {n : ℤ} (low : -256 ^ length ≤ 2 * n)
    (high : 2 * n < 256 ^ length) : signedLe (fixedLe length (n % 256 ^ length).toNat) = n := by
  have positive : (0 : ℤ) < 256 ^ length := by positivity
  have unsigned : (unsignedLe (fixedLe length (n % 256 ^ length).toNat) : ℤ) = n % 256 ^ length := by
    rw [unsignedLe_fixedLe]
    push_cast
    rw [Int.toNat_of_nonneg (Int.emod_nonneg n positive.ne'), Int.emod_emod]
  have sign : isNegative (fixedLe length (n % 256 ^ length).toNat) = true ↔
      (256 : ℤ) ^ length ≤ 2 * (n % 256 ^ length) := by
    rw [isNegative_iff, length_fixedLe]
    constructor <;> intro high
    · rw [← unsigned]
      exact_mod_cast high
    · rw [← unsigned] at high
      exact_mod_cast high
  unfold signedLe
  rw [unsigned, length_fixedLe]
  rcases lt_or_ge n 0 with negative | nonneg
  · have wrapped : n % 256 ^ length = n + 256 ^ length := by
      rw [← Int.add_emod_right]
      exact Int.emod_eq_of_lt (by linarith) (by linarith)
    rw [if_pos (sign.mpr (by linarith)), wrapped]
    ring
  · have same : n % 256 ^ length = n := Int.emod_eq_of_lt nonneg (by linarith)
    rw [if_neg fun h ↦ by linarith [sign.mp h], same]

end Pon.Bytes
