import Mathlib.Data.LawfulXor.Basic
import Mathlib.Logic.Function.Iterate
import Pon.Lib.Bytes

/-!
# CRC-32

The table-driven checksum shifts the whole message through a feedback register, so it sees every burst
of at most 32 changed bits.
-/

namespace Pon.Binascii

/-- A step of the loop that fills the table. -/
def crc32Shift (value : UInt32) : UInt32 :=
  if value &&& 1 ≠ 0 then (0xedb88320 : UInt32) ^^^ (value >>> 1) else value >>> 1

def CRC32_TABLE : Vector UInt32 256 := .ofFn fun i ↦ crc32Shift^[8] (.ofNat i)

def crc32Byte (value : UInt32) (byte : UInt8) : UInt32 :=
  CRC32_TABLE.get (value ^^^ byte.toUInt32).toUInt8.toFin ^^^ (value >>> 8)

def crc32Core (data : List UInt8) (crc : UInt32) : UInt32 := ~~~data.foldl crc32Byte (~~~crc)

/-- The register on numbers of any size. -/
def shift (value : ℕ) : ℕ := if value.testBit 0 then 0xedb88320 ^^^ (value >>> 1) else value >>> 1

theorem toNat_crc32Shift (value : UInt32) : (crc32Shift value).toNat = shift value.toNat := by
  simp only [crc32Shift, shift, ne_eq, ← UInt32.toNat_inj, apply_ite UInt32.toNat]
  simp [Nat.and_one_is_mod]

theorem shift_xor (a b : ℕ) : shift (a ^^^ b) = shift a ^^^ shift b := by
  unfold shift
  rw [Nat.testBit_xor, Nat.shiftRight_xor_distrib]
  cases a.testBit 0 <;> cases b.testBit 0 <;> simp
  · ac_rfl
  · ac_rfl
  · rw [Nat.xor_comm _ (a >>> 1), Nat.xor_assoc, xor_cancel_left]

theorem iterate_shift_xor (count a b : ℕ) :
    shift^[count] (a ^^^ b) = shift^[count] a ^^^ shift^[count] b := by
  induction count generalizing a b with
  | zero => rfl
  | succ count ih => rw [Function.iterate_succ_apply, shift_xor, ih]; rfl

theorem iterate_shift_shiftLeft (count value : ℕ) : shift^[count] (value <<< count) = value := by
  induction count with
  | zero => rfl
  | succ count ih =>
    rw [Function.iterate_succ_apply]
    simpa [shift, Nat.shiftLeft_add] using ih

/-- The low bits and the others. -/
theorem low_xor_high (count value : ℕ) : value % 2 ^ count ^^^ (value >>> count) <<< count = value := by
  apply Nat.eq_of_testBit_eq
  intro i
  rw [Nat.testBit_xor, Nat.testBit_mod_two_pow, Nat.testBit_shiftLeft, Nat.testBit_shiftRight]
  grind

theorem toNat_crc32Byte (value : UInt32) (byte : UInt8) :
    (crc32Byte value byte).toNat = shift^[8] (value.toNat ^^^ byte.toNat) := by
  have entry (i : Fin 256) : (CRC32_TABLE.get i).toNat = shift^[8] i := by
    have iterates := Function.Semiconj.iterate_right (f := UInt32.toNat) toNat_crc32Shift 8 (.ofNat i)
    rw [UInt32.toNat_ofNat_of_lt' (i.isLt.trans (by decide))] at iterates
    exact (congrArg UInt32.toNat (Vector.getElem_ofFn i.isLt)).trans iterates
  have high : (value.toNat ^^^ byte.toNat) >>> 8 = value.toNat >>> 8 := by
    rw [Nat.shiftRight_xor_distrib, Nat.shiftRight_eq_zero _ _ byte.toNat_lt, Nat.xor_zero]
  calc (crc32Byte value byte).toNat
      = shift^[8] ((value.toNat ^^^ byte.toNat) % 2 ^ 8) ^^^ value.toNat >>> 8 := by
        rw [crc32Byte, UInt32.toNat_xor, entry, UInt32.toNat_shiftRight]
        rfl
    _ = shift^[8] (value.toNat ^^^ byte.toNat) := by
        rw [← iterate_shift_shiftLeft 8 (value.toNat >>> 8), ← iterate_shift_xor, ← high, low_xor_high]

theorem toNat_foldl_crc32Byte (data : List UInt8) (value : UInt32) :
    (data.foldl crc32Byte value).toNat =
      shift^[8 * data.length] (value.toNat ^^^ Bytes.unsignedLe data) := by
  induction data generalizing value with
  | nil => simp
  | cons byte data ih =>
    have split : Bytes.unsignedLe (byte :: data) = byte.toNat ^^^ Bytes.unsignedLe data <<< 8 := by
      have bound := byte.toNat_lt
      rw [Bytes.unsignedLe_cons, ← low_xor_high 8 (byte.toNat + _), Nat.shiftRight_eq_div_pow]
      congr 2 <;> omega
    rw [List.foldl_cons, ih, toNat_crc32Byte, List.length_cons, Nat.mul_succ, Function.iterate_add_apply,
      split, ← Nat.xor_assoc, iterate_shift_xor 8 (_ ^^^ _), iterate_shift_shiftLeft]

/-- The loop over the table shifts the message, as one number, through the register. A checksum is
continued by the next part of a message. -/
theorem crc32_register (data next : List UInt8) (crc : UInt32) :
    (~~~crc32Core data crc).toNat =
        shift^[8 * data.length] ((~~~crc).toNat ^^^ Bytes.unsignedLe data) ∧
      crc32Core (data ++ next) crc = crc32Core next (crc32Core data crc) := by
  simp [crc32Core, toNat_foldl_crc32Byte]

/-- No step takes a nonzero word to zero. -/
theorem shift_pos {value : ℕ} (pos : 0 < value) (bound : value < 2 ^ 32) :
    0 < shift value ∧ shift value < 2 ^ 32 := by
  unfold shift
  simp only [Nat.shiftRight_eq_div_pow, Nat.testBit_zero, decide_eq_true_eq]
  split_ifs
  · refine ⟨Nat.pos_of_ne_zero fun zero ↦ ?_, Nat.xor_lt_two_pow (by decide) (by omega)⟩
    have same := xor_eq_zero_iff.mp zero
    omega
  · omega

/-- Two messages of one length that differ in a burst of at most 32 bits have different checksums. -/
theorem crc32_detects_burst {data other : List UInt8} (length : data.length = other.length)
    {burst position : ℕ} (pos : 0 < burst) (bound : burst < 2 ^ 32)
    (differ : Bytes.unsignedLe data ^^^ Bytes.unsignedLe other = burst <<< position) (crc : UInt32) :
    crc32Core data crc ≠ crc32Core other crc := by
  intro same
  have cancels : shift^[8 * data.length] (burst <<< position) = 0 := by
    have register := congrArg UInt32.toNat (UInt32.not_inj.mp same)
    simp only [toNat_foldl_crc32Byte, ← length, iterate_shift_xor] at register
    rw [← differ, iterate_shift_xor, (xor_right_involutive _).injective register, Nat.xor_self]
  have kept (count : ℕ) : 0 < shift^[count] burst ∧ shift^[count] burst < 2 ^ 32 := by
    induction count with
    | zero => exact ⟨pos, bound⟩
    | succ count ih =>
      rw [Function.iterate_succ_apply']
      exact shift_pos ih.1 ih.2
  obtain later | before := Nat.le_total position (8 * data.length)
  · rw [← Nat.sub_add_cancel later, Function.iterate_add_apply, iterate_shift_shiftLeft] at cancels
    exact (kept _).1.ne' cancels
  · rw [← Nat.sub_add_cancel before, Nat.shiftLeft_add, iterate_shift_shiftLeft] at cancels
    exact pos.ne' (Nat.shiftLeft_eq_zero_iff.mp cancels)

/-- Thirteen bits over three bytes. -/
theorem crc32_detects_burst_bytes :
    crc32Core [104, 105, 106, 107] 0 ≠ crc32Core [104, 201, 63, 104] 0 := by
  have differ : Bytes.unsignedLe [104, 105, 106, 107] ^^^ Bytes.unsignedLe [104, 201, 63, 104] =
      0x1AAD <<< 13 := by decide
  exact crc32_detects_burst (by rfl) (by decide) (by decide) differ 0

end Pon.Binascii
