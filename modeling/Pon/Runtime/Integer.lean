import Pon.Lib.TwosComplement
import Pon.Runtime.Number

/-!
# Integer operators

The integer operators against their mathematical meaning. Quotients and shifts to the right are rounded
down, a remainder has the sign of the divisor, and the bitwise operators act on all bits in two's
complement. Exponents that do not fit 32 bits and shift counts that do not fit 64 are refused.
-/

namespace Pon.Number

open Ir

def IntValue.value : IntValue → ℤ
  | .intI64 value => value.toInt
  | .int value => value

/-- The quotient and the remainder, or the exception that `divmod_ints` sets. -/
def divmodInts (left right : ℤ) : Except (ExcType × String) (ℤ × ℤ) :=
  if right = 0 then .error (.zeroDivisionError, "division by zero")
  else .ok (left.fdiv right, left.fmod right)

/-- A remainder lies between zero and the divisor. -/
structure IsRemainder (r b : ℤ) : Prop where
  of_pos : 0 < b → 0 ≤ r ∧ r < b
  of_neg : b < 0 → b < r ∧ r ≤ 0

/-- The result of an operator. -/
def Exact (op : BinOp) (a b n : ℤ) : Prop :=
  match op with
  | .add => n = a + b
  | .sub => n = a - b
  | .mul => n = a * b
  | .floorDiv => ∃ r, a = n * b + r ∧ IsRemainder r b
  | .mod => ∃ q, a = q * b + n ∧ IsRemainder n b
  | .pow => n = a ^ b.toNat
  | .lShift => n = a * 2 ^ b.toNat
  | .rShift => ∃ r, a = n * 2 ^ b.toNat + r ∧ 0 ≤ r ∧ r < 2 ^ b.toNat
  | .and => ∀ i, n.testBit i = (a.testBit i && b.testBit i)
  | .or => ∀ i, n.testBit i = (a.testBit i || b.testBit i)
  | .xor => ∀ i, n.testBit i = (a.testBit i ^^ b.testBit i)
  | .div | .matMul => False

/-- The right operands that an operator refuses. -/
def Refused (op : BinOp) (b : ℤ) : Prop :=
  match op with
  | .floorDiv | .mod => b = 0
  | .pow => 2 ^ 32 ≤ b
  | .lShift | .rShift => b < 0 ∨ 2 ^ 64 ≤ b
  | _ => False

/-- The inline path agrees with arbitrary precision on every operator. -/
theorem binaryI64_eq (op : BinOp) (left right : Int64) :
    binaryI64 op left right = binaryInt op left.toInt right.toInt := by
  cases op with
  | add | sub | mul | floorDiv | mod => exact binaryI64_eq_binaryInt left right (by simp)
  | and =>
    have hand : (left &&& right).toInt = left.toInt.land right.toInt :=
      TwosComplement.toInt_and left.toBitVec right.toBitVec
    rw [binaryI64, fromI64, hand, binaryInt]
  | or =>
    have hor : (left ||| right).toInt = left.toInt.lor right.toInt :=
      TwosComplement.toInt_or left.toBitVec right.toBitVec
    rw [binaryI64, fromI64, hor, binaryInt]
  | xor =>
    have hxor : (left ^^^ right).toInt = left.toInt.xor right.toInt :=
      TwosComplement.toInt_xor left.toBitVec right.toBitVec
    rw [binaryI64, fromI64, hxor, binaryInt]
  | matMul | div | pow | lShift | rShift => rfl

theorem binaryNumeric_eq (op : BinOp) (left right : IntValue) :
    binaryNumeric op left right = binaryInt op left.value right.value := by
  cases left with
  | intI64 left =>
    cases right with
    | intI64 right => exact binaryI64_eq op left right
    | int right => rfl
  | int left => cases right <;> rfl

theorem isRemainder_fmod (a : ℤ) {b : ℤ} : IsRemainder (a.fmod b) b where
  of_pos hb := ⟨Int.fmod_nonneg_of_pos a hb, Int.fmod_lt_of_pos a hb⟩
  of_neg hb := by
    have hneg : a.fmod b = -((-a).fmod (-b)) := by rw [Int.neg_fmod_neg, Int.neg_neg]
    have hlower := Int.fmod_nonneg_of_pos (-a) (show 0 < -b by omega)
    have hupper := Int.fmod_lt_of_pos (-a) (show 0 < -b by omega)
    omega

theorem exact_shiftRight (a : ℤ) (n : ℕ) :
    ∃ r, a = (a >>> n) * 2 ^ n + r ∧ 0 ≤ r ∧ r < 2 ^ n := by
  have hpos : (0 : ℤ) < 2 ^ n := Int.pow_pos (by omega)
  refine ⟨a % 2 ^ n, ?_, Int.emod_nonneg a (by omega), Int.emod_lt_of_pos a hpos⟩
  have hdiv : a >>> n = a / 2 ^ n := by
    rw [Int.shiftRight_eq_div_pow]
    norm_cast
  rw [hdiv, Int.mul_comm]
  exact (Int.mul_ediv_add_emod a (2 ^ n)).symm

/-- An operator on integers gives its exact result or refuses the right operand. -/
theorem binaryInt_exact {op : BinOp} (hop : op ≠ .div ∧ op ≠ .matMul) (a : ℤ) {b : ℤ}
    (hexponent : op = .pow → 0 ≤ b) :
    (¬Refused op b → ∃ n, binaryInt op a b = .int n ∧ Exact op a b n) ∧
      (Refused op b → ∃ exc message, binaryInt op a b = .raised exc message) := by
  cases op with
  | add | sub | mul => exact ⟨fun _ ↦ ⟨_, rfl, rfl⟩, nofun⟩
  | and => exact ⟨fun _ ↦ ⟨_, rfl, Int.testBit_land a b⟩, nofun⟩
  | or => exact ⟨fun _ ↦ ⟨_, rfl, Int.testBit_lor a b⟩, nofun⟩
  | xor => exact ⟨fun _ ↦ ⟨_, rfl, Int.testBit_lxor a b⟩, nofun⟩
  | floorDiv | mod =>
    refine ⟨fun hb ↦ ⟨_, if_neg hb, _, (Int.fdiv_mul_add_fmod a b).symm, isRemainder_fmod a⟩, fun hb ↦ ?_⟩
    exact ⟨_, _, if_pos hb⟩
  | pow =>
    have hnonneg : ¬b < 0 := Int.not_lt.mpr (hexponent rfl)
    refine ⟨fun hb ↦ ⟨a ^ b.toNat, ?_, rfl⟩, fun hb ↦ ?_⟩
    · exact (if_neg hnonneg).trans (if_pos (Int.not_le.mp hb))
    · exact ⟨_, _, (if_neg hnonneg).trans (if_neg (Int.not_lt.mpr hb))⟩
  | lShift =>
    refine ⟨fun hb ↦ ?_, fun hb ↦ ?_⟩
    · obtain ⟨hneg, hlarge⟩ := not_or.mp hb
      exact ⟨_, (if_neg hneg).trans (if_pos (Int.not_le.mp hlarge)), rfl⟩
    · rcases hb with hneg | hlarge
      · exact ⟨_, _, if_pos hneg⟩
      · exact ⟨_, _, (if_neg (by omega)).trans (if_neg (Int.not_lt.mpr hlarge))⟩
  | rShift =>
    refine ⟨fun hb ↦ ?_, fun hb ↦ ?_⟩
    · obtain ⟨hneg, hlarge⟩ := not_or.mp hb
      exact ⟨_, (if_neg hneg).trans (if_pos (Int.not_le.mp hlarge)), exact_shiftRight a b.toNat⟩
    · rcases hb with hneg | hlarge
      · exact ⟨_, _, if_pos hneg⟩
      · exact ⟨_, _, (if_neg (by omega)).trans (if_neg (Int.not_lt.mpr hlarge))⟩
  | div => exact absurd rfl hop.1
  | matMul => exact absurd rfl hop.2

/-- The integer operators return the exact result for every pair of integers, also on the inline path,
and fail only for the operands that they refuse. A quotient and its remainder fit together. -/
theorem binaryNumeric_exact {op : BinOp} (hop : op ≠ .div ∧ op ≠ .matMul) (left right : IntValue)
    (hexponent : op = .pow → 0 ≤ right.value) :
    (¬Refused op right.value →
      ∃ n, binaryNumeric op left right = .int n ∧ Exact op left.value right.value n) ∧
    (Refused op right.value → ∃ exc message, binaryNumeric op left right = .raised exc message) ∧
    (∀ l r : Int64, binaryI64 op l r = binaryInt op l.toInt r.toInt) ∧
    (right.value ≠ 0 → ∃ q r, binaryNumeric .floorDiv left right = .int q ∧
      binaryNumeric .mod left right = .int r ∧ divmodInts left.value right.value = .ok (q, r) ∧
      left.value = q * right.value + r ∧ IsRemainder r right.value) := by
  obtain ⟨hexact, hrefused⟩ := binaryInt_exact hop left.value hexponent
  simp only [binaryNumeric_eq]
  refine ⟨hexact, hrefused, binaryI64_eq op, fun hne ↦ ?_⟩
  refine ⟨_, _, if_neg hne, if_neg hne, if_neg hne, ?_, isRemainder_fmod _⟩
  exact (Int.fdiv_mul_add_fmod _ _).symm

theorem binaryNumeric_exact_floorDiv : ∃ n,
    binaryNumeric .floorDiv (.intI64 (-7)) (.int 2) = .int n ∧ Exact .floorDiv (-7) 2 n := by
  have hop : BinOp.floorDiv ≠ .div ∧ BinOp.floorDiv ≠ .matMul := by simp
  have hright : ¬Refused .floorDiv (IntValue.int 2).value := by
    simp [Refused, IntValue.value]
  exact (binaryNumeric_exact hop (.intI64 (-7)) (.int 2) (by simp)).1 hright

theorem shiftInt_large (left : ℤ) {right : ℤ} (leftShift : Bool) (h : 2 ^ 64 ≤ right) :
    shiftInt left right leftShift = .raised .valueError "shift count too large" := by
  unfold shiftInt
  rw [if_neg (by omega), if_neg (by omega)]

/-- Zero to a large power and a number shifted to the right by a large count are zero, and are
refused. -/
theorem large_operands_refused :
    binaryNumeric .pow (.intI64 0) (.intI64 4294967296) = .raised .valueError "exponent too large" ∧
      binaryNumeric .rShift (.intI64 42) (.int (2 ^ 1000)) =
        .raised .valueError "shift count too large" := by
  have hshift : ∀ n : ℕ, 64 ≤ n → binaryNumeric .rShift (.intI64 42) (.int (2 ^ n)) =
      .raised .valueError "shift count too large" := by
    intro n hn
    have hlarge : (2 : ℤ) ^ 64 ≤ 2 ^ n := pow_le_pow_right₀ (by decide) hn
    rw [binaryNumeric_eq]
    exact shiftInt_large _ false hlarge
  exact ⟨by decide, hshift 1000 (by decide)⟩

end Pon.Number
