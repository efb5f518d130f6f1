import Pon.Ir.Inst
import Mathlib.Data.Int.Bitwise
import Mathlib.Tactic.Linarith

/-!
# Boxed integer arithmetic

The runtime's numeric helpers on Python ints: a fast path on 64-bit payloads that checks for overflow
and promotes to arbitrary precision, and the arbitrary-precision operations themselves. Operands that
are floats or complex numbers take other paths; a float that an integer operation produces is kept
as the operation that produces it.
-/

namespace Pon.Number

open Ir

inductive ExcType where
  | zeroDivisionError | valueError | typeError
  deriving DecidableEq

/-- What a numeric helper hands back: an object, or the exception it has set. -/
inductive PyResult where
  | int (value : ℤ)
  | bool (value : Bool)
  | quotient (left right : ℤ)
  | power (left right : ℤ)
  | notImplemented
  | raised (exc : ExcType) (message : String)
  deriving DecidableEq

/-- The payload of a Python int, inline where it fits 64 bits. -/
inductive IntValue where
  | intI64 (value : Int64)
  | int (value : ℤ)

def i64Min : ℤ := -2 ^ 63

def i64Max : ℤ := 2 ^ 63 - 1

/-- The integers with a 64-bit representation. -/
def FitsI64 (n : ℤ) : Prop := i64Min ≤ n ∧ n ≤ i64Max

instance (n : ℤ) : Decidable (FitsI64 n) := inferInstanceAs (Decidable (_ ∧ _))

/-- The checked operations of the machine integers: the exact result, or nothing on overflow. -/
def checked (n : ℤ) : Option Int64 :=
  if FitsI64 n then some (Int64.ofInt n) else none

def fromI64 (value : Int64) : PyResult := .int value.toInt

def raiseZeroDivisionError (message : String) : PyResult := .raised .zeroDivisionError message

def powInt (left right : ℤ) : PyResult :=
  if right < 0 then
    if left = 0 then raiseZeroDivisionError "zero to a negative power" else .power left right
  else if right < 2 ^ 32 then .int (left ^ right.toNat)
  else .raised .valueError "exponent too large"

def shiftInt (left right : ℤ) (leftShift : Bool) : PyResult :=
  if right < 0 then .raised .valueError "negative shift count"
  else if right < 2 ^ 64 then
    .int (if leftShift then left * 2 ^ right.toNat else left >>> right.toNat)
  else .raised .valueError "shift count too large"

def binaryInt (op : BinOp) (left right : ℤ) : PyResult :=
  match op with
  | .add => .int (left + right)
  | .sub => .int (left - right)
  | .mul => .int (left * right)
  | .floorDiv =>
    if right = 0 then raiseZeroDivisionError "division by zero" else .int (left.fdiv right)
  | .mod =>
    if right = 0 then raiseZeroDivisionError "division by zero" else .int (left.fmod right)
  | .pow => powInt left right
  | .lShift => shiftInt left right true
  | .rShift => shiftInt left right false
  | .and => .int (left.land right)
  | .or => .int (left.lor right)
  | .xor => .int (left.xor right)
  | .div =>
    if right = 0 then raiseZeroDivisionError "division by zero" else .quotient left right
  | .matMul => .notImplemented

def binaryI64Fallback (op : BinOp) (left right : Int64) : PyResult :=
  binaryInt op left.toInt right.toInt

def binaryI64 (op : BinOp) (left right : Int64) : PyResult :=
  match op with
  | .add => (checked (left.toInt + right.toInt)).elim (binaryI64Fallback op left right) fromI64
  | .sub => (checked (left.toInt - right.toInt)).elim (binaryI64Fallback op left right) fromI64
  | .mul => (checked (left.toInt * right.toInt)).elim (binaryI64Fallback op left right) fromI64
  | .floorDiv =>
    if right = 0 then raiseZeroDivisionError "division by zero"
    else if left = Int64.minValue ∧ right = -1 then binaryI64Fallback op left right
    else fromI64 (Int64.ofInt (left.toInt.fdiv right.toInt))
  | .mod =>
    if right = 0 then raiseZeroDivisionError "division by zero"
    else if left = Int64.minValue ∧ right = -1 then binaryI64Fallback op left right
    else fromI64 (Int64.ofInt (left.toInt.fmod right.toInt))
  | .and => fromI64 (left &&& right)
  | .or => fromI64 (left ||| right)
  | .xor => fromI64 (left ^^^ right)
  | _ => binaryI64Fallback op left right

def binaryNumeric (op : BinOp) (left right : IntValue) : PyResult :=
  match left, right with
  | .intI64 left, .intI64 right => binaryI64 op left right
  | .intI64 left, .int right => binaryInt op left.toInt right
  | .int left, .intI64 right => binaryInt op left right.toInt
  | .int left, .int right => binaryInt op left right

def unaryNumeric (op : UnOp) (value : IntValue) : PyResult :=
  match value, op with
  | .intI64 value, .neg => (checked (-value.toInt)).elim (.int (-value.toInt)) fromI64
  | .intI64 value, .pos => fromI64 value
  | .intI64 value, .invert => fromI64 (~~~value)
  | .int value, .neg => .int (-value)
  | .int value, .pos => .int value
  | .int value, .invert => .int (-value - 1)

def richCompareOrdering (op : CmpOp) (ordering : Ordering) : PyResult :=
  .bool <| match op with
    | .eq => ordering == .eq
    | .ne => ordering != .eq
    | .lt => ordering == .lt
    | .le => ordering != .gt
    | .gt => ordering == .gt
    | .ge => ordering != .lt

/-- The numeric case of a rich comparison; a mixed pair compares in arbitrary precision. -/
def richCompareNumeric (op : CmpOp) (left right : IntValue) : PyResult :=
  match left, right with
  | .intI64 left, .intI64 right => richCompareOrdering op (compare left.toInt right.toInt)
  | .intI64 left, .int right => richCompareOrdering op (compare left.toInt right)
  | .int left, .intI64 right => richCompareOrdering op (compare left right.toInt)
  | .int left, .int right => richCompareOrdering op (compare left right)

theorem toInt_fits (a : Int64) : FitsI64 a.toInt := by
  have lower := a.le_toInt
  have upper := a.toInt_lt
  unfold FitsI64 i64Min i64Max
  omega

theorem toInt_ofInt_of_fits {n : ℤ} (h : FitsI64 n) : (Int64.ofInt n).toInt = n := by
  unfold FitsI64 i64Min i64Max at h
  have size : ((Int64.size : ℕ) : ℤ) = 2 ^ 64 := rfl
  rw [Int64.toInt_ofInt]
  exact Int.bmod_eq_of_le (by omega) (by omega)

theorem checked_elim (n : ℤ) : (checked n).elim (.int n) fromI64 = .int n := by
  unfold checked
  split_ifs with h
  · simp only [Option.elim_some, fromI64, toInt_ofInt_of_fits h]
  · rfl

theorem minValue_toInt : Int64.minValue.toInt = i64Min := by decide

theorem eq_minValue_iff (a : Int64) : a = Int64.minValue ↔ a.toInt = i64Min := by
  rw [← minValue_toInt, Int64.toInt_inj]

theorem eq_neg_one_iff (b : Int64) : b = -1 ↔ b.toInt = -1 := by
  have h : (-1 : Int64).toInt = -1 := by decide
  rw [← h, Int64.toInt_inj]

theorem eq_zero_iff (b : Int64) : b = 0 ↔ b.toInt = 0 := by
  have h : (0 : Int64).toInt = 0 := by decide
  rw [← h, Int64.toInt_inj]

theorem ediv_bounds {lower upper n c : ℤ} (hl : lower ≤ 0) (hu : 0 ≤ upper) (hc : 0 < c)
    (h : lower ≤ n ∧ n ≤ upper) : lower ≤ n / c ∧ n / c ≤ upper := by
  constructor
  · apply Int.le_ediv_of_mul_le hc
    nlinarith
  · apply Int.ediv_le_of_le_mul hc
    nlinarith

/-- A quotient leaves the 64-bit range only at the minimum divided by minus one. -/
theorem fdiv_fits {a b : ℤ} (ha : FitsI64 a) (hb : b ≠ 0) (h : ¬(a = i64Min ∧ b = -1)) :
    FitsI64 (a.fdiv b) := by
  unfold FitsI64 i64Min i64Max at *
  rcases lt_or_gt_of_ne hb with neg | pos
  · rw [← Int.neg_fdiv_neg, Int.fdiv_eq_ediv_of_nonneg _ (by omega)]
    by_cases unit : b = -1
    · subst unit
      simp only [Int.neg_neg, Int.ediv_one]
      omega
    · have bounds := ediv_bounds (c := -b) (n := -a) (by norm_num) (by norm_num) (by omega)
        (show (-2 ^ 63 : ℤ) ≤ -a ∧ -a ≤ 2 ^ 63 by omega)
      refine ⟨bounds.1, ?_⟩
      have half : -a / -b ≤ 2 ^ 62 := by
        apply Int.ediv_le_of_le_mul (by omega)
        omega
      omega
  · rw [Int.fdiv_eq_ediv_of_nonneg _ pos.le]
    exact ediv_bounds (by norm_num) (by norm_num) pos ha

/-- A remainder lies between zero and the divisor. -/
theorem fmod_fits {a b : ℤ} (hb : FitsI64 b) (h : b ≠ 0) : FitsI64 (a.fmod b) := by
  unfold FitsI64 i64Min i64Max at *
  rcases lt_or_gt_of_ne h with neg | pos
  · have flip : a.fmod b = -((-a).fmod (-b)) := by rw [Int.neg_fmod_neg, Int.neg_neg]
    have lower := Int.fmod_nonneg_of_pos (-a) (show 0 < -b by omega)
    have upper := Int.fmod_lt_of_pos (-a) (show 0 < -b by omega)
    omega
  · have lower := Int.fmod_nonneg_of_pos a pos
    have upper := Int.fmod_lt_of_pos a pos
    omega

/-- On the operators of the typed tier the inline path agrees with arbitrary precision. -/
theorem binaryI64_eq_binaryInt {op : BinOp} (left right : Int64)
    (hop : op = .add ∨ op = .sub ∨ op = .mul ∨ op = .floorDiv ∨ op = .mod) :
    binaryI64 op left right = binaryInt op left.toInt right.toInt := by
  have division (n : ℤ) (exact : right ≠ 0 → ¬(left = Int64.minValue ∧ right = -1) → FitsI64 n)
      (fallback : right.toInt ≠ 0 → binaryInt op left.toInt right.toInt = .int n) :
      (if right = 0 then raiseZeroDivisionError "division by zero"
        else if left = Int64.minValue ∧ right = -1 then binaryI64Fallback op left right
        else fromI64 (Int64.ofInt n)) =
      if right.toInt = 0 then raiseZeroDivisionError "division by zero" else .int n := by
    by_cases zero : right = 0
    · rw [if_pos zero, if_pos ((eq_zero_iff right).mp zero)]
    · have zero' : right.toInt ≠ 0 := fun h ↦ zero ((eq_zero_iff right).mpr h)
      rw [if_neg zero, if_neg zero']
      split_ifs with corner
      · exact fallback zero'
      · rw [fromI64, toInt_ofInt_of_fits (exact zero corner)]
  rcases hop with rfl | rfl | rfl | rfl | rfl
  · exact checked_elim _
  · exact checked_elim _
  · exact checked_elim _
  · apply division
    · intro zero corner
      apply fdiv_fits (toInt_fits left) (fun h ↦ zero ((eq_zero_iff right).mpr h))
      rintro ⟨hl, hr⟩
      exact corner ⟨(eq_minValue_iff left).mpr hl, (eq_neg_one_iff right).mpr hr⟩
    · intro zero
      simp only [binaryInt, if_neg zero]
  · apply division
    · intro zero _
      exact fmod_fits (toInt_fits right) (fun h ↦ zero ((eq_zero_iff right).mpr h))
    · intro zero
      simp only [binaryInt, if_neg zero]

theorem unaryNumeric_neg (value : Int64) :
    unaryNumeric .neg (.intI64 value) = .int (-value.toInt) :=
  checked_elim _

end Pon.Number
