import Mathlib.Data.Int.Bitwise

/-!
# Bits of integers

An integer is told by its bits, where those of a negative integer end in ones. The bitwise operations on
machine words in two's complement are those on the integers.
-/

namespace Pon.TwosComplement

theorem int_eq_of_testBit {a b : ℤ} (h : ∀ i, a.testBit i = b.testBit i) : a = b := by
  -- The bits of a non-negative integer end in zeros and those of a negative one in ones.
  have hmixed (m n : ℕ) : ¬∀ i, m.testBit i = !n.testBit i := by
    intro hbits
    obtain ⟨hm, hn⟩ : m < 2 ^ (m + n) ∧ n < 2 ^ (m + n) :=
      ⟨Nat.lt_of_le_of_lt (Nat.le_add_right m n) Nat.lt_two_pow_self,
        Nat.lt_of_le_of_lt (Nat.le_add_left n m) Nat.lt_two_pow_self⟩
    have hbit := hbits (m + n)
    rw [Nat.testBit_lt_two_pow hm, Nat.testBit_lt_two_pow hn] at hbit
    cases hbit
  cases a with
  | ofNat m =>
    cases b with
    | ofNat n => exact congrArg Int.ofNat (Nat.eq_of_testBit_eq h)
    | negSucc n => exact absurd h (hmixed m n)
  | negSucc m =>
    cases b with
    | ofNat n => exact absurd (fun i ↦ (h i).symm) (hmixed n m)
    | negSucc n =>
      exact congrArg Int.negSucc (Nat.eq_of_testBit_eq fun i ↦ Bool.not_inj (h i))

variable {w : ℕ} (x : BitVec w)

/-- The bits of a word, and its sign from there on. -/
theorem testBit_toInt (i : ℕ) :
    x.toInt.testBit i = if i < w then x.getLsbD i else x.msb := by
  have hlt := x.isLt
  rw [BitVec.toInt_eq_msb_cond]
  cases hmsb : x.msb with
  | false =>
    have hbit : ((x.toNat : ℕ) : ℤ).testBit i = x.toNat.testBit i := rfl
    simp only [Bool.false_eq_true, if_false]
    rw [hbit]
    split
    · rfl
    · rename_i hge
      exact Nat.testBit_lt_two_pow (Nat.lt_of_lt_of_le hlt (Nat.pow_le_pow_right (by omega) (by omega)))
  | true =>
    have hneg : ((x.toNat : ℕ) : ℤ) - ((2 ^ w : ℕ) : ℤ) = Int.negSucc (2 ^ w - (x.toNat + 1)) := by
      rw [Int.negSucc_eq]
      omega
    have hbit (n : ℕ) : (Int.negSucc n).testBit i = !n.testBit i := rfl
    simp only [if_true]
    rw [hneg, hbit, Nat.testBit_two_pow_sub_succ hlt]
    split
    · rename_i hi
      rw [decide_eq_true hi, Bool.true_and, Bool.not_not]
      rfl
    · rename_i hi
      rw [decide_eq_false hi, Bool.false_and, Bool.not_false]

variable (y : BitVec w)

theorem toInt_and : (x &&& y).toInt = x.toInt.land y.toInt := by
  refine int_eq_of_testBit fun i ↦ ?_
  rw [Int.testBit_land, testBit_toInt, testBit_toInt, testBit_toInt]
  split
  · exact BitVec.getLsbD_and
  · exact BitVec.msb_and

theorem toInt_or : (x ||| y).toInt = x.toInt.lor y.toInt := by
  refine int_eq_of_testBit fun i ↦ ?_
  rw [Int.testBit_lor, testBit_toInt, testBit_toInt, testBit_toInt]
  split
  · exact BitVec.getLsbD_or
  · exact BitVec.msb_or

theorem toInt_xor : (x ^^^ y).toInt = x.toInt.xor y.toInt := by
  refine int_eq_of_testBit fun i ↦ ?_
  rw [Int.testBit_lxor, testBit_toInt, testBit_toInt, testBit_toInt]
  split
  · exact BitVec.getLsbD_xor
  · exact BitVec.msb_xor

end Pon.TwosComplement
