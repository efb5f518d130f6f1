import Pon.Lib.Bytes
import Mathlib.Data.Nat.Log

/-!
# Integers as byte strings

`int.to_bytes` takes the shortest byte string that the bigint library gives for a number and fills it up
to the length, and `int.from_bytes` reads a string of any length. An argument is given by what the
readers of the runtime find in it.
-/

namespace Pon.Number

open Bytes

/-- What the readers find in an argument: an integer, a text, a truth value unless `__bool__` raises, a
byte payload unless the conversion raises, and the name of the type. -/
structure Arg where
  bigint : Option ℤ := none
  unicodeText : Option String := none
  isTrue : Option Bool := some true
  bytesPayload : Option (List UInt8) := none
  typeName : Option String := none

namespace Arg

def none : Arg := { isTrue := some false, typeName := some "NoneType" }

def int (value : ℤ) : Arg :=
  { bigint := some value, isTrue := some (value != 0), typeName := some "int" }

def bool (value : Bool) : Arg :=
  { bigint := some value.toNat, isTrue := some value, typeName := some "bool" }

def str (text : String) : Arg :=
  { unicodeText := some text, isTrue := some (text != ""), typeName := some "str" }

def bytes (payload : List UInt8) : Arg :=
  { bytesPayload := some payload, isTrue := some !payload.isEmpty, typeName := some "bytes" }

def isNone (arg : Arg) : Bool := arg.typeName == some "NoneType"

end Arg

inductive BytesError where
  | typeError (message : String)
  | valueError (message : String)
  | overflowError (message : String)
  /-- An exception that the reader of an argument has set. -/
  | raised
  deriving DecidableEq

/-- The byte conversions of the bigint library. -/
structure BigIntBytes where
  toBytesLe : ℕ → List UInt8
  toSignedBytesLe : ℤ → List UInt8
  fromBytesLe : List UInt8 → ℕ
  fromBytesBe : List UInt8 → ℕ
  fromSignedBytesLe : List UInt8 → ℤ
  fromSignedBytesBe : List UInt8 → ℤ

/-- An argument that is there and is not `None`. -/
def given (args : List Arg) (index : ℕ) : Option Arg := args[index]?.filter fun arg ↦ !arg.isNone

def maxIsize : ℤ := 2 ^ 63 - 1

/-- The length of the result, one by default. -/
def lengthArg : Option Arg → Except BytesError ℕ
  | .none => .ok 1
  | some arg =>
    match arg.bigint with
    | .none => .error (.typeError "to_bytes() length argument must be an integer")
    | some length =>
      if length < -2 ^ 63 ∨ maxIsize < length then
        .error (.overflowError "Python int too large to convert to C ssize_t")
      else if 0 ≤ length then .ok length.toNat
      else .error (.valueError "length argument must be non-negative")

/-- Whether the byte order is little-endian, which it is not by default. -/
def byteorderArg : Option Arg → Except BytesError Bool
  | .none => .ok false
  | some arg =>
    match arg.unicodeText with
    | some "big" => .ok false
    | some "little" => .ok true
    | _ => .error (.valueError "byteorder must be either 'little' or 'big'")

def signedArg : Option Arg → Except BytesError Bool
  | .none => .ok false
  | some arg => arg.isTrue.elim (.error .raised) .ok

/-- `Vec::resize`. -/
def resize (bytes : List UInt8) (length : ℕ) (fill : UInt8) : List UInt8 :=
  bytes.take length ++ List.replicate (length - bytes.length) fill

/-- The bytes of a value filled up to a length that they do not exceed. -/
def fitBytes (le : List UInt8) (length : ℕ) (fill : UInt8) : Except BytesError (List UInt8) :=
  if length < le.length then .error (.overflowError "int too big to convert")
  else .ok (resize le length fill)

/-- The little-endian bytes of a value. -/
def encodeLe (lib : BigIntBytes) (value : ℤ) (length : ℕ) (signed : Bool) :
    Except BytesError (List UInt8) :=
  if value = 0 then .ok (List.replicate length 0)
  else if value < 0 ∧ !signed then .error (.overflowError "can't convert negative int to unsigned")
  else if signed then
    fitBytes (lib.toSignedBytesLe value) length (if value < 0 then 0xff else 0x00)
  else fitBytes (lib.toBytesLe value.natAbs) length 0x00

def intToBytesMethod (lib : BigIntBytes) (args : List Arg) : Except BytesError (List UInt8) :=
  match args with
  | [] => .error (.typeError "unbound method int.to_bytes() needs an argument")
  | receiver :: rest =>
    if 4 < args.length then
      .error (.typeError ("to_bytes() takes 0 to 3 arguments (" ++ toString rest.length ++ " given)"))
    else
      match receiver.bigint with
      | .none => .error (.typeError ("descriptor 'to_bytes' for 'int' objects doesn't apply to a '" ++
          receiver.typeName.getD "object" ++ "' object"))
      | some value => do
        let length ← lengthArg (given args 1)
        let little ← byteorderArg (given args 2)
        let signed ← signedArg (given args 3)
        let bytes ← encodeLe lib value length signed
        return if little then bytes else bytes.reverse

def intFromBytesEntry (lib : BigIntBytes) (args : List Arg) : Except BytesError ℤ :=
  match args with
  | [] => .error (.typeError "from_bytes() takes 1 to 3 arguments (0 given)")
  | object :: _ =>
    if 3 < args.length then
      .error (.typeError ("from_bytes() takes 1 to 3 arguments (" ++ toString args.length ++ " given)"))
    else do
      let little ← byteorderArg (given args 1)
      let signed ← signedArg (given args 2)
      match object.bytesPayload with
      | .none => .error .raised
      | some payload => return match little, signed with
        | false, false => lib.fromBytesBe payload
        | true, false => lib.fromBytesLe payload
        | false, true => lib.fromSignedBytesBe payload
        | true, true => lib.fromSignedBytesLe payload

/-- The strings of the library are the shortest ones, and it reads every string. -/
structure BigIntBytes.Lawful (lib : BigIntBytes) : Prop where
  value_toBytesLe : ∀ n, unsignedLe (lib.toBytesLe n) = n
  length_toBytesLe_le : ∀ n length, n ≠ 0 → n < 256 ^ length → (lib.toBytesLe n).length ≤ length
  value_toSignedBytesLe : ∀ n, signedLe (lib.toSignedBytesLe n) = n
  length_toSignedBytesLe_le : ∀ n length, n ≠ 0 → -256 ^ length ≤ 2 * n → 2 * n < 256 ^ length →
    (lib.toSignedBytesLe n).length ≤ length
  fromBytesLe_eq : ∀ bytes, lib.fromBytesLe bytes = unsignedLe bytes
  fromBytesBe_eq : ∀ bytes, lib.fromBytesBe bytes = unsignedLe bytes.reverse
  fromSignedBytesLe_eq : ∀ bytes, lib.fromSignedBytesLe bytes = signedLe bytes
  fromSignedBytesBe_eq : ∀ bytes, lib.fromSignedBytesBe bytes = signedLe bytes.reverse

/-- The values of a string, by the sign flag. -/
def valueLe (signed : Bool) (bytes : List UInt8) : ℤ :=
  if signed then signedLe bytes else unsignedLe bytes

/-- The numbers that a string of a given length can hold: `[0, 256 ^ length)`, or
`[-256 ^ length / 2, 256 ^ length / 2)` with a sign. -/
def InRange (signed : Bool) (length : ℕ) (n : ℤ) : Prop :=
  if signed then -256 ^ length ≤ 2 * n ∧ 2 * n < 256 ^ length else 0 ≤ n ∧ n < 256 ^ length

theorem inRange_valueLe (signed : Bool) (bytes : List UInt8) :
    InRange signed bytes.length (valueLe signed bytes) := by
  cases signed with
  | true => exact signedLe_bounds bytes
  | false =>
    have bound : (unsignedLe bytes : ℤ) < 256 ^ bytes.length := by exact_mod_cast unsignedLe_lt bytes
    exact ⟨Int.natCast_nonneg _, bound⟩

theorem valueLe_inj {signed : Bool} {left right : List UInt8} (length : left.length = right.length)
    (value : valueLe signed left = valueLe signed right) : left = right := by
  cases signed with
  | true => exact signedLe_inj length value
  | false => exact unsignedLe_inj length (Int.natCast_inj.mp value)

variable {length : ℕ}

variable {le bytes : List UInt8} {n : ℤ}

theorem fitBytes_ok {fill : UInt8} (fitted : fitBytes le length fill = .ok bytes) :
    bytes = le ++ List.replicate (length - le.length) fill ∧ bytes.length = length := by
  unfold fitBytes at fitted
  split_ifs at fitted with large
  have short := Nat.le_of_not_lt large
  obtain rfl := Except.ok.inj fitted
  rw [resize, List.take_of_length_le short, List.length_append, List.length_replicate]
  exact ⟨rfl, Nat.add_sub_of_le short⟩

theorem fitBytes_of_le (short : le.length ≤ length) (fill : UInt8) :
    ∃ bytes, fitBytes le length fill = .ok bytes :=
  ⟨_, if_neg (Nat.not_lt_of_le short)⟩

theorem signByte_eq (value : signedLe bytes = n) :
    signByte bytes = if n < 0 then 0xff else 0x00 := by
  rw [signByte, ← value]
  simp only [signedLe_neg_iff]

section Encode

variable {lib : BigIntBytes} {value : ℤ} {length : ℕ} {signed : Bool} (lawful : lib.Lawful)
include lawful

/-- What is encoded has the length and the value. -/
theorem encodeLe_ok (encoded : encodeLe lib value length signed = .ok bytes) :
    bytes.length = length ∧ valueLe signed bytes = value := by
  rw [encodeLe] at encoded
  by_cases zero : value = 0
  · rw [if_pos zero] at encoded
    obtain rfl := Except.ok.inj encoded
    refine ⟨List.length_replicate, ?_⟩
    have unsigned : unsignedLe (List.replicate length 0) = 0 := unsignedLe_append_replicate [] length
    have twos : signedLe (List.replicate length 0) = 0 := signedLe_append_replicate [] length
    rw [valueLe, unsigned, twos, zero]
    split_ifs <;> rfl
  rw [if_neg zero] at encoded
  cases signed with
  | true =>
    rw [if_neg (by simp), if_pos rfl] at encoded
    obtain ⟨rfl, sized⟩ := fitBytes_ok encoded
    have exact_ := lawful.value_toSignedBytesLe value
    refine ⟨sized, ?_⟩
    rw [valueLe, if_pos rfl, ← signByte_eq exact_, signedLe_append_replicate, exact_]
  | false =>
    by_cases negative : value < 0
    · rw [if_pos ⟨negative, rfl⟩] at encoded
      cases encoded
    rw [if_neg fun h ↦ negative h.1, if_neg Bool.false_ne_true] at encoded
    obtain ⟨rfl, sized⟩ := fitBytes_ok encoded
    refine ⟨sized, ?_⟩
    rw [valueLe, if_neg Bool.false_ne_true, unsignedLe_append_replicate, lawful.value_toBytesLe,
      Int.natAbs_of_nonneg (not_lt.mp negative)]

theorem encodeLe_of_inRange (fits : InRange signed length value) :
    ∃ bytes, encodeLe lib value length signed = .ok bytes := by
  rw [encodeLe]
  by_cases zero : value = 0
  · exact ⟨_, if_pos zero⟩
  rw [if_neg zero]
  cases signed with
  | true =>
    rw [if_neg (by simp), if_pos rfl]
    exact fitBytes_of_le (lawful.length_toSignedBytesLe_le value length zero fits.1 fits.2) _
  | false =>
    have nonneg : 0 ≤ value := fits.1
    have bound : value.natAbs < 256 ^ length := by
      have high : value < 256 ^ length := fits.2
      zify
      rwa [abs_of_nonneg nonneg]
    rw [if_neg fun h ↦ absurd h.1 (not_lt.mpr nonneg), if_neg Bool.false_ne_true]
    exact fitBytes_of_le
      (lawful.length_toBytesLe_le value.natAbs length (Int.natAbs_ne_zero.mpr zero) bound) _

theorem encodeLe_iff :
    (∃ bytes, encodeLe lib value length signed = .ok bytes) ↔ InRange signed length value := by
  refine ⟨?_, encodeLe_of_inRange lawful⟩
  rintro ⟨bytes, encoded⟩
  obtain ⟨rfl, rfl⟩ := encodeLe_ok lawful encoded
  exact inRange_valueLe signed bytes

theorem encodeLe_valueLe (bytes : List UInt8) (signed : Bool) :
    encodeLe lib (valueLe signed bytes) bytes.length signed = .ok bytes := by
  obtain ⟨encoded, run⟩ := encodeLe_of_inRange lawful (inRange_valueLe signed bytes)
  obtain ⟨length, value⟩ := encodeLe_ok lawful run
  rw [run, valueLe_inj length value]

end Encode

inductive ByteOrder where
  | big
  | little
  deriving DecidableEq

def ByteOrder.text : ByteOrder → String
  | .big => "big"
  | .little => "little"

/-- A string and its little-endian form: the order of the bytes is turned around, or it is not. -/
def ByteOrder.arrange : ByteOrder → List UInt8 → List UInt8
  | .big, bytes => bytes.reverse
  | .little, bytes => bytes

/-- `n.to_bytes(length, order, signed=signed)`. -/
def toBytes (lib : BigIntBytes) (n : ℤ) (length : ℕ) (order : ByteOrder) (signed : Bool) :
    Except BytesError (List UInt8) :=
  intToBytesMethod lib [.int n, .int length, .str order.text, .bool signed]

/-- `int.from_bytes(bytes, order, signed=signed)`. -/
def fromBytes (lib : BigIntBytes) (bytes : List UInt8) (order : ByteOrder) (signed : Bool) :
    Except BytesError ℤ :=
  intFromBytesEntry lib [.bytes bytes, .str order.text, .bool signed]

variable (order : ByteOrder)

@[simp]
theorem ByteOrder.arrange_arrange (bytes : List UInt8) :
    order.arrange (order.arrange bytes) = bytes := by
  cases order with
  | big => exact List.reverse_reverse bytes
  | little => rfl

@[simp]
theorem ByteOrder.length_arrange (bytes : List UInt8) :
    (order.arrange bytes).length = bytes.length := by
  cases order with
  | big => exact List.length_reverse
  | little => rfl

theorem lengthArg_int (machine : length ≤ maxIsize) :
    lengthArg (some (.int length)) = .ok length := by
  have inside : ¬((length : ℤ) < -2 ^ 63 ∨ maxIsize < length) := by
    rintro (low | high)
    · exact absurd (low.trans_le (by decide : (-2 ^ 63 : ℤ) ≤ 0)) (by simp)
    · exact absurd machine (not_le.mpr high)
  simp only [lengthArg, Arg.int]
  rw [if_neg inside, if_pos (Int.natCast_nonneg length), Int.toNat_natCast]

theorem lengthArg_large (large : maxIsize < length) :
    lengthArg (some (.int length)) =
      .error (.overflowError "Python int too large to convert to C ssize_t") :=
  if_pos (Or.inr large)

theorem byteorderArg_str :
    byteorderArg (some (.str order.text)) = .ok (order == .little) := by
  cases order <;> rfl

/-- A call encodes the number and arranges the bytes. -/
theorem toBytes_eq (lib : BigIntBytes) (n : ℤ) (machine : length ≤ maxIsize) (order : ByteOrder)
    (signed : Bool) :
    toBytes lib n length order signed = (encodeLe lib n length signed).map order.arrange := by
  have lengthGiven : given [.int n, .int length, .str order.text, .bool signed] 1 =
    some (.int length) := rfl
  have orderGiven : given [.int n, .int length, .str order.text, .bool signed] 2 =
    some (.str order.text) := rfl
  have signedGiven : given [.int n, .int length, .str order.text, .bool signed] 3 =
    some (.bool signed) := rfl
  have receiver : (Arg.int n).bigint = some n := rfl
  have flag : signedArg (some (.bool signed)) = .ok signed := rfl
  simp only [toBytes, intToBytesMethod, receiver]
  rw [if_neg (by simp), lengthGiven, orderGiven, signedGiven, lengthArg_int machine,
    byteorderArg_str, flag]
  cases encoded : encodeLe lib n length signed with
  | error error => simp [bind, Except.bind, Except.map, encoded]
  | ok bytes => cases order <;> simp [bind, Except.bind, Except.map, encoded, ByteOrder.arrange] <;> rfl

/-- A length beyond the machine's is refused before anything is encoded. -/
theorem toBytes_large (lib : BigIntBytes) (n : ℤ) (large : maxIsize < length) (order : ByteOrder)
    (signed : Bool) : toBytes lib n length order signed =
      .error (.overflowError "Python int too large to convert to C ssize_t") := by
  have lengthGiven : given [.int n, .int length, .str order.text, .bool signed] 1 =
    some (.int length) := rfl
  have receiver : (Arg.int n).bigint = some n := rfl
  simp only [toBytes, intToBytesMethod, receiver]
  rw [if_neg (by simp), lengthGiven, lengthArg_large large]
  rfl

/-- A call reads the value of the arranged bytes. -/
theorem fromBytes_eq {lib : BigIntBytes} (lawful : lib.Lawful) (bytes : List UInt8)
    (order : ByteOrder) (signed : Bool) :
    fromBytes lib bytes order signed = .ok (valueLe signed (order.arrange bytes)) := by
  have orderGiven : given [.bytes bytes, .str order.text, .bool signed] 1 =
    some (.str order.text) := rfl
  have signedGiven : given [.bytes bytes, .str order.text, .bool signed] 2 = some (.bool signed) := rfl
  have payload : (Arg.bytes bytes).bytesPayload = some bytes := rfl
  have flag : signedArg (some (.bool signed)) = .ok signed := rfl
  simp only [fromBytes, intFromBytesEntry, payload]
  rw [if_neg (by simp), orderGiven, signedGiven, byteorderArg_str, flag]
  cases order <;> cases signed
  · exact congrArg (Except.ok <| Nat.cast ·) (lawful.fromBytesBe_eq bytes)
  · exact congrArg Except.ok (lawful.fromSignedBytesBe_eq bytes)
  · exact congrArg (Except.ok <| Nat.cast ·) (lawful.fromBytesLe_eq bytes)
  · exact congrArg Except.ok (lawful.fromSignedBytesLe_eq bytes)

/-- `to_bytes` succeeds for the numbers in the range and on nothing else, and the two conversions undo
each other; a length beyond the machine's is refused for every number. -/
theorem toBytes_fromBytes {lib : BigIntBytes} (lawful : lib.Lawful) (length : ℕ) (order : ByteOrder)
    (signed : Bool) :
    (length ≤ maxIsize →
      (∀ n, ((∃ bytes, toBytes lib n length order signed = .ok bytes) ↔ InRange signed length n) ∧
        ∀ bytes, toBytes lib n length order signed = .ok bytes →
          bytes.length = length ∧ fromBytes lib bytes order signed = .ok n) ∧
      ∀ bytes : List UInt8, bytes.length = length → ∃ n,
        fromBytes lib bytes order signed = .ok n ∧ toBytes lib n length order signed = .ok bytes) ∧
    (maxIsize < length → ∀ n, toBytes lib n length order signed =
      .error (.overflowError "Python int too large to convert to C ssize_t")) := by
  refine ⟨fun machine ↦ ⟨fun n ↦ ⟨?_, fun bytes written ↦ ?_⟩, fun bytes sized ↦ ?_⟩,
    fun large n ↦ toBytes_large lib n large order signed⟩
  · rw [toBytes_eq lib n machine, ← encodeLe_iff lawful]
    cases encodeLe lib n length signed <;> simp [Except.map]
  · rw [toBytes_eq lib n machine] at written
    cases encoded : encodeLe lib n length signed with
    | error error =>
      rw [encoded] at written
      cases written
    | ok le =>
      rw [encoded] at written
      obtain rfl : order.arrange le = bytes := Except.ok.inj written
      obtain ⟨sized, value⟩ := encodeLe_ok lawful encoded
      rw [fromBytes_eq lawful, order.arrange_arrange, value, order.length_arrange]
      exact ⟨sized, rfl⟩
  · refine ⟨_, fromBytes_eq lawful bytes order signed, ?_⟩
    have encoded := encodeLe_valueLe lawful (order.arrange bytes) signed
    rw [order.length_arrange, sized] at encoded
    rw [toBytes_eq lib _ machine, encoded]
    exact congrArg Except.ok (order.arrange_arrange bytes)

def shortestLe (n : ℕ) : List UInt8 := fixedLe (Nat.log 256 n + 1) n

/-- The length of the shortest string that holds a number and its sign. -/
def signedLength (n : ℤ) : ℕ := Nat.log 256 (2 * (if 0 ≤ n then n else -n - 1).toNat) + 1

def shortestSignedLe (n : ℤ) : List UInt8 :=
  fixedLe (signedLength n) (n % 256 ^ signedLength n).toNat

/-- The shortest strings, and the values of all strings. -/
def shortestBytes : BigIntBytes where
  toBytesLe := shortestLe
  toSignedBytesLe := shortestSignedLe
  fromBytesLe := unsignedLe
  fromBytesBe bytes := unsignedLe bytes.reverse
  fromSignedBytesLe := signedLe
  fromSignedBytesBe bytes := signedLe bytes.reverse

theorem inRange_signedLength (n : ℤ) :
    -256 ^ signedLength n ≤ 2 * n ∧ 2 * n < 256 ^ signedLength n := by
  have bound := Nat.lt_pow_succ_log_self (by decide : 1 < 256) (2 * (if 0 ≤ n then n else -n - 1).toNat)
  have even : (256 : ℤ) ^ signedLength n =
      2 * (128 * 256 ^ Nat.log 256 (2 * (if 0 ≤ n then n else -n - 1).toNat)) := by
    rw [signedLength, pow_succ]
    ring
  have cast : 2 * ((if 0 ≤ n then n else -n - 1).toNat : ℤ) < 256 ^ signedLength n := by
    exact_mod_cast bound
  rw [even] at cast ⊢
  split_ifs at cast ⊢ with sign <;> omega

theorem signedLength_le (nonzero : n ≠ 0) (low : -256 ^ length ≤ 2 * n)
    (high : 2 * n < 256 ^ length) : signedLength n ≤ length := by
  have bound : 2 * (if 0 ≤ n then n else -n - 1).toNat < 256 ^ length := by
    zify
    split_ifs with sign <;> omega
  rcases Nat.eq_zero_or_pos length with rfl | positive
  · rw [pow_zero] at low high
    omega
  · exact Nat.log_lt_of_lt_pow' positive.ne' bound

theorem shortestBytes_lawful : shortestBytes.Lawful where
  value_toBytesLe n := by
    change unsignedLe (shortestLe n) = n
    rw [shortestLe, unsignedLe_fixedLe]
    exact Nat.mod_eq_of_lt (Nat.lt_pow_succ_log_self (by decide) n)
  length_toBytesLe_le n length nonzero bound := by
    change (shortestLe n).length ≤ length
    rw [shortestLe, length_fixedLe]
    exact Nat.log_lt_of_lt_pow nonzero bound
  value_toSignedBytesLe n :=
    signedLe_fixedLe (inRange_signedLength n).1 (inRange_signedLength n).2
  length_toSignedBytesLe_le n length nonzero low high := by
    change (shortestSignedLe n).length ≤ length
    rw [shortestSignedLe, length_fixedLe]
    exact signedLength_le nonzero low high
  fromBytesLe_eq _ := rfl
  fromBytesBe_eq _ := rfl
  fromSignedBytesLe_eq _ := rfl
  fromSignedBytesBe_eq _ := rfl

/-- Two bytes, and one byte more than the machine's largest length. -/
theorem toBytes_fromBytes_two :
    ((∀ n, ((∃ bytes, toBytes shortestBytes n 2 .big true = .ok bytes) ↔ InRange true 2 n) ∧
      ∀ bytes, toBytes shortestBytes n 2 .big true = .ok bytes →
        bytes.length = 2 ∧ fromBytes shortestBytes bytes .big true = .ok n) ∧
    ∀ bytes : List UInt8, bytes.length = 2 → ∃ n,
      fromBytes shortestBytes bytes .big true = .ok n ∧
        toBytes shortestBytes n 2 .big true = .ok bytes) ∧
    ∀ n, toBytes shortestBytes n (2 ^ 63) .big true =
      .error (.overflowError "Python int too large to convert to C ssize_t") :=
  ⟨(toBytes_fromBytes shortestBytes_lawful 2 .big true).1 (by decide),
    (toBytes_fromBytes shortestBytes_lawful (2 ^ 63) .big true).2 (by decide)⟩

/-- Zero is in the range of every length, and a length above the machine's is refused. -/
theorem toBytes_length_overflow :
    InRange false (2 ^ 63) 0 ∧ toBytes shortestBytes 0 (2 ^ 63) .big false =
      .error (.overflowError "Python int too large to convert to C ssize_t") := by
  refine ⟨⟨le_refl 0, by positivity⟩, rfl⟩

end Pon.Number
