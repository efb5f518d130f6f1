import Mathlib.Algebra.Order.Ring.Abs
import Mathlib.Data.Int.ModEq
import Mathlib.Tactic.Ring
import Pon.Runtime.Integer

/-!
# Modular power

Square and multiply over remainders with the sign of the modulus, and the extended Euclidean algorithm
over absolute values.
-/

namespace Pon.Number

/-- The loop of `mod_inverse`: the last remainder and its coefficient. -/
def euclidLoop (t newT r newR : ℤ) : ℤ × ℤ :=
  if newR = 0 then (r, t)
  else
    let quotient := r.tdiv newR
    euclidLoop newT (t - quotient * newT) newR (r - quotient * newR)
termination_by newR.natAbs
decreasing_by
  have : r - r.tdiv newR * newR = r.tmod newR := by rw [Int.tmod_def, Int.mul_comm]
  rw [this, Int.natAbs_tmod]
  exact Nat.mod_lt _ (by omega)

def modInverse (value modulus : ℤ) : Option ℤ :=
  let (r, t) := euclidLoop 0 1 |modulus| (value.fmod |modulus|)
  if r ≠ 1 then none else some (t.fmod modulus)

/-- The loop of `pow_mod`; its exponent is not negative. -/
def powModLoop (modulus result base : ℤ) (exp : ℕ) : ℤ :=
  if exp = 0 then result
  else
    powModLoop modulus (if exp % 2 = 1 then (result * base).fmod modulus else result)
      (if exp >>> 1 ≠ 0 then (base * base).fmod modulus else base) (exp >>> 1)
decreasing_by
  rw [Nat.shiftRight_one]
  omega

def powMod (base : ℤ) (exp : ℕ) (modulus : ℤ) : ℤ :=
  (powModLoop modulus (Int.fmod 1 modulus) base exp).fmod modulus

def powIntMod (base exp modulus : ℤ) : Except (ExcType × String) ℤ :=
  if modulus = 0 then .error (.valueError, "pow() 3rd argument cannot be 0")
  else if exp < 0 then
    match modInverse (base.fmod modulus) modulus with
    | none => .error (.valueError, "base is not invertible for the given modulus")
    | some inverse => .ok (powMod inverse (-exp).toNat modulus)
  else .ok (powMod (base.fmod modulus) exp.toNat modulus)

theorem fmod_modEq (a m : ℤ) : a.fmod m ≡ a [ZMOD m] := by
  refine (Int.modEq_iff_dvd).mpr ⟨a.fdiv m, ?_⟩
  have := Int.mul_fdiv_add_fmod a m
  omega

/-- The coefficients stay congruent to the remainders, whose divisors stay the same. -/
theorem euclidLoop_spec {value modulus t newT r newR : ℤ} (first : t * value ≡ r [ZMOD modulus])
    (second : newT * value ≡ newR [ZMOD modulus]) (nonneg : 0 ≤ r ∧ 0 ≤ newR) :
    (euclidLoop t newT r newR).1 = r.gcd newR ∧
      (euclidLoop t newT r newR).2 * value ≡ (euclidLoop t newT r newR).1 [ZMOD modulus] := by
  fun_induction euclidLoop t newT r newR with
  | case1 t newT r => exact ⟨by simp [Int.natAbs_of_nonneg nonneg.1], first⟩
  | case2 t newT r newR nonzero quotient ih =>
    have step : r - quotient * newR = r % newR := by
      rw [Int.emod_def, ← Int.tdiv_eq_ediv_of_nonneg nonneg.1, Int.mul_comm]
    have third : (t - quotient * newT) * value ≡ r - quotient * newR [ZMOD modulus] := by
      rw [Int.sub_mul, Int.mul_assoc]
      exact first.sub (second.mul_left quotient)
    obtain ⟨divisor, coefficient⟩ := ih second third ⟨nonneg.2, step ▸ Int.emod_nonneg r nonzero⟩
    refine ⟨divisor.trans ?_, coefficient⟩
    rw [step, Int.gcd_comm, Int.gcd_emod]

theorem powModLoop_modEq (modulus result base : ℤ) (exp : ℕ) :
    powModLoop modulus result base exp ≡ result * base ^ exp [ZMOD modulus] := by
  fun_induction powModLoop modulus result base exp with
  | case1 => simp
  | case2 result base exp nonzero ih =>
    have odd : (if exp % 2 = 1 then (result * base).fmod modulus else result) ≡
        result * base ^ (exp % 2) [ZMOD modulus] := by
      split
      · next one => simpa [one] using fmod_modEq (result * base) modulus
      · next even => simp [Nat.mod_two_ne_one.mp even, Int.ModEq.refl]
    have square : (if exp >>> 1 ≠ 0 then (base * base).fmod modulus else base) ^ (exp >>> 1) ≡
        (base * base) ^ (exp >>> 1) [ZMOD modulus] := by
      split
      · exact (fmod_modEq _ _).pow _
      · next zero => simp [not_not.mp zero, Int.ModEq.refl]
    have halves : result * base ^ exp = result * base ^ (exp % 2) * (base * base) ^ (exp >>> 1) := by
      rw [Nat.shiftRight_one, ← pow_two, ← pow_mul, mul_assoc, ← pow_add, Nat.mod_add_div]
    rw [halves]
    exact ih.trans (odd.mul square)

theorem powMod_modEq (base : ℤ) (exp : ℕ) (modulus : ℤ) :
    powMod base exp modulus ≡ base ^ exp [ZMOD modulus] := by
  refine (fmod_modEq _ _).trans ((powModLoop_modEq _ _ _ _).trans ?_)
  simpa using (fmod_modEq 1 modulus).mul_right (base ^ exp)

theorem modInverse_spec (base : ℤ) {modulus : ℤ} (nonzero : modulus ≠ 0) :
    (modInverse (base.fmod modulus) modulus = none ↔ base.gcd modulus ≠ 1) ∧
      ∀ inverse ∈ modInverse (base.fmod modulus) modulus, inverse * base ≡ 1 [ZMOD modulus] := by
  have reduced : (base.fmod modulus).fmod |modulus| = base % modulus := by
    rw [Int.fmod_eq_emod_of_nonneg _ (abs_nonneg _), Int.emod_abs]
    exact fmod_modEq base modulus
  have first : 0 * base ≡ |modulus| [ZMOD modulus] := by
    rw [Int.zero_mul]
    exact ((Int.modEq_zero_iff_dvd).mpr (self_dvd_abs modulus)).symm
  have second : 1 * base ≡ base % modulus [ZMOD modulus] := by
    rw [Int.one_mul]
    exact (Int.mod_modEq base modulus).symm
  obtain ⟨divisor, coefficient⟩ :=
    euclidLoop_spec first second ⟨abs_nonneg _, Int.emod_nonneg _ nonzero⟩
  have same : |modulus|.gcd (base % modulus) = base.gcd modulus := by
    rw [Int.gcd_comm, ← Int.gcd_emod base]
    simp [Int.gcd, Int.natAbs_abs]
  rw [same] at divisor
  unfold modInverse
  simp only [reduced, divisor]
  constructor
  · simp
  · intro inverse found
    split at found
    · cases found
    · next one =>
      obtain rfl := Option.some.inj found
      rw [divisor, not_not.mp one] at coefficient
      exact ((fmod_modEq _ _).mul_right base).trans coefficient

/-- A modular power lies between zero and the modulus and is congruent to the power, of an inverse if
the exponent is negative. It fails exactly if an inverse is asked for and there is none. -/
theorem powIntMod_spec (base exp : ℤ) {modulus : ℤ} (nonzero : modulus ≠ 0) :
    (powIntMod base exp modulus =
        .error (.valueError, "base is not invertible for the given modulus") ↔
      exp < 0 ∧ base.gcd modulus ≠ 1) ∧
    (¬(exp < 0 ∧ base.gcd modulus ≠ 1) → ∃ result, powIntMod base exp modulus = .ok result ∧
      IsRemainder result modulus ∧ (0 ≤ exp → result ≡ base ^ exp.toNat [ZMOD modulus]) ∧
      (exp < 0 → ∃ inverse, inverse * base ≡ 1 [ZMOD modulus] ∧
        result ≡ inverse ^ (-exp).toNat [ZMOD modulus])) := by
  obtain ⟨missing, found⟩ := modInverse_spec base nonzero
  unfold powIntMod
  rw [if_neg nonzero]
  by_cases negative : exp < 0
  · rw [if_pos negative, ← missing]
    cases inverted : modInverse (base.fmod modulus) modulus with
    | none => simp [negative]
    | some inverse =>
      refine ⟨by simp, fun _ ↦ ⟨_, rfl, isRemainder_fmod _, fun nonneg ↦ by omega, fun _ ↦ ?_⟩⟩
      exact ⟨inverse, found inverse inverted, powMod_modEq _ _ _⟩
  · rw [if_neg negative]
    refine ⟨by simp [negative], fun _ ↦ ⟨_, rfl, isRemainder_fmod _, fun _ ↦ ?_, fun h ↦ absurd h negative⟩⟩
    exact (powMod_modEq _ _ _).trans ((fmod_modEq _ _).pow _)

theorem powIntMod_spec_inverse :
    ∃ result, powIntMod 3 (-1) (-7) = .ok result ∧ IsRemainder result (-7) := by
  obtain ⟨result, ok, remainder, -⟩ := (powIntMod_spec 3 (-1) (show (-7 : ℤ) ≠ 0 by decide)).2 (by decide)
  exact ⟨result, ok, remainder⟩

end Pon.Number
