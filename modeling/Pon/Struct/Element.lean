import Pon.Lib.Bytes
import Pon.Struct.Format

/-!
# Elements of binary records

An element of an item is packed into its slice of a record and unpacked from it. Integers are written in
two's complement in the byte order of the format, strings are cut off or filled with zeros.
-/

namespace Pon.Struct

open Bytes

/-! ## Values -/

/-- The bytes of the buffer of a call, and whether they are no longer where they were at the call. -/
structure Window where
  bytes : List UInt8
  moved : Bool
deriving DecidableEq

/-- An argument or a result. A buffer comes with what it holds when it is read. Any other object comes with
the outcome of its truth test and with what the test leaves of the buffer of the call, if it touches it. -/
inductive Value
  | none
  | int (value : ℤ)
  | bool (value : Bool)
  | bytes (payload : List UInt8)
  | buffer (payload : List UInt8)
  | other (truth : Except String Bool) (left : Option Window) (content : ℕ)
deriving DecidableEq

namespace Value

/-- `to_bigint_including_bool`. -/
def toBigint : Value → Option ℤ
  | .int value => some value
  | .bool value => some (if value then 1 else 0)
  | _ => Option.none

/-- `pon_is_true`. -/
def isTrue : Value → Except String Bool
  | .none => .ok false
  | .int value => .ok (value ≠ 0)
  | .bool value => .ok value
  | .bytes payload => .ok (payload ≠ [])
  | .buffer payload => .ok (payload ≠ [])
  | .other truth _ _ => truth

/-- `buffer_arg`. -/
def bufferArg : Value → Option (List UInt8)
  | .bytes payload => some payload
  | .buffer payload => some payload
  | _ => Option.none

def asBytes : Value → Option (List UInt8)
  | .bytes payload => some payload
  | _ => Option.none

/-- The buffer after the truth test. -/
def touch (window : Window) : Value → Window
  | .other _ (some left) _ => { left with moved := window.moved || left.moved }
  | _ => window

end Value

/-- The floating-point formats: the bits of a float, and those of both parts of a complex number. -/
structure FloatCodec where
  toBits : ℕ → Value → Except String ℕ
  toParts : ℕ → Value → Except String (ℕ × ℕ)
  ofBits : ℕ → ℕ → Value
  ofParts : ℕ → ℕ × ℕ → Value

/-! ## Raw bytes -/

/-- The low bytes of a value in the byte order. -/
def writeUint (length value : ℕ) (little : Bool) : List UInt8 :=
  if little then (fixedLe 16 value).take length else ((fixedLe 16 value).take length).reverse

def readUint (src : List UInt8) (little : Bool) : ℕ :=
  (if little then src.reverse else src).foldl (fun value byte ↦ (value <<< 8) ||| byte.toNat) 0

/-- A slice of a buffer. -/
def readAt (data : List UInt8) (pos length : ℕ) : Except Failure (List UInt8) :=
  if pos + length ≤ data.length then .ok ((data.drop pos).take length) else .error .panicked

/-- Copies bytes into a slice of a buffer. -/
def writeAt (out : List UInt8) (pos : ℕ) (bytes : List UInt8) : Except Failure (List UInt8) :=
  if pos + bytes.length ≤ out.length then
    .ok (out.take pos ++ bytes ++ out.drop (pos + bytes.length))
  else .error .panicked

/-! ## Packing -/

def intBounds (kind : Kind) (size : ℕ) : ℤ × ℤ :=
  if kind = .signed then (-2 ^ (size * 8 - 1), 2 ^ (size * 8 - 1) - 1) else (0, 2 ^ (size * 8) - 1)

def rangeErrorMessage (item : Item) : String :=
  match item.code with
  | 'b' => "byte format requires -128 <= number <= 127"
  | 'B' => "ubyte format requires 0 <= number <= 255"
  | 'h' => "short format requires -32768 <= number <= 32767"
  | 'H' => "ushort format requires 0 <= number <= 65535"
  | code =>
    "'" ++ String.singleton code ++ "' format requires " ++
      toString (intBounds item.kind item.size).1 ++ " <= number <= " ++
        toString (intBounds item.kind item.size).2

def raised {α : Type} (message : String) : Except Failure α := .error (.raised message)

/-- Packs one element into its slice. -/
def packElement (floats : FloatCodec) (dest : List UInt8) (value : Value) (item : Item) (little : Bool) :
    Except Failure (List UInt8) :=
  match item.kind with
  | .pad => .ok dest
  | .signed | .unsigned =>
    match value.toBigint with
    | none => raised "required argument is not an integer"
    | some int =>
      if (intBounds item.kind item.size).1 ≤ int ∧ int ≤ (intBounds item.kind item.size).2 then
        .ok (writeUint dest.length (int % 2 ^ (item.size * 8)).toNat little)
      else raised (rangeErrorMessage item)
  | .bool =>
    match value.isTrue with
    | .ok truth => writeAt dest 0 [if truth then 1 else 0]
    | .error message => raised message
  | .char =>
    match value.bufferArg with
    | some [byte] => writeAt dest 0 [byte]
    | _ => raised "char format requires a bytes object of length 1"
  | .str =>
    match value.asBytes with
    | none => raised "argument for 's' must be a bytes object"
    | some payload => writeAt dest 0 (payload.take (min payload.length item.count))
  | .pascal =>
    match value.asBytes with
    | none => raised "argument for 'p' must be a bytes object"
    | some payload =>
      if item.count = 0 then .ok dest
      else do
        let n := min (min payload.length (item.count - 1)) 255
        let dest ← writeAt dest 0 [n.toUInt8]
        writeAt dest 1 (payload.take n)
  | .float =>
    match floats.toBits item.size value with
    | .ok bits => .ok (writeUint dest.length bits little)
    | .error message => raised message
  | .complex =>
    match floats.toParts item.size value with
    | .ok parts => do
      let half := if item.size = 8 then 4 else 8
      let dest ← writeAt dest 0 (writeUint half parts.1 little)
      writeAt dest half (writeUint half parts.2 little)
    | .error message => raised message

/-! ## Unpacking -/

def unpackElement (floats : FloatCodec) (src : List UInt8) (item : Item) (little : Bool) :
    Except Failure Value :=
  match item.kind with
  | .pad => .ok .none
  | .signed =>
    let raw := readUint src little
    .ok (.int (if 2 ^ (item.size * 8 - 1) ≤ raw then (raw : ℤ) - 2 ^ (item.size * 8) else raw))
  | .unsigned => .ok (.int (readUint src little))
  | .bool =>
    match src[0]? with
    | none => .error .panicked
    | some byte => .ok (.bool (byte ≠ 0))
  | .char => do
    let byte ← readAt src 0 1
    .ok (.bytes byte)
  | .str => .ok (.bytes src)
  | .pascal =>
    if item.count = 0 then .ok (.bytes [])
    else
      match src[0]? with
      | none => .error .panicked
      | some length => do
        let payload ← readAt src 1 (min length.toNat (item.count - 1))
        .ok (.bytes payload)
  | .float => .ok (floats.ofBits item.size (readUint src little))
  | .complex => do
    let half := if item.size = 8 then 4 else 8
    let real ← readAt src 0 half
    let imag ← readAt src half half
    .ok (floats.ofParts item.size (readUint real little, readUint imag little))

/-! ## Raw values -/

/-- Bytes in the byte order, least significant byte first. -/
def arrange (little : Bool) (bytes : List UInt8) : List UInt8 := if little then bytes else bytes.reverse

theorem arrange_arrange (little : Bool) (bytes : List UInt8) : arrange little (arrange little bytes) = bytes := by
  cases little with
  | false => exact List.reverse_reverse bytes
  | true => rfl

@[simp]
theorem length_arrange (little : Bool) (bytes : List UInt8) : (arrange little bytes).length = bytes.length := by
  cases little with
  | false => exact List.length_reverse
  | true => rfl

theorem foldl_reverse_eq_unsignedLe (bytes : List UInt8) :
    bytes.reverse.foldl (fun value byte ↦ (value <<< 8) ||| byte.toNat) 0 = unsignedLe bytes := by
  induction bytes with
  | nil => rfl
  | cons byte bytes ih =>
    rw [List.reverse_cons, List.foldl_append, ih, List.foldl_cons, List.foldl_nil,
      ← Nat.shiftLeft_add_eq_or_of_lt byte.toNat_lt, Nat.shiftLeft_eq, unsignedLe_cons]
    ring

theorem readUint_eq (src : List UInt8) (little : Bool) :
    readUint src little = unsignedLe (arrange little src) := by
  cases little with
  | false =>
    have reversed := foldl_reverse_eq_unsignedLe src.reverse
    rwa [List.reverse_reverse] at reversed
  | true => exact foldl_reverse_eq_unsignedLe src

variable {length pos : ℕ} {bytes dest : List UInt8} {item : Item} {floats : FloatCodec}
  {little : Bool} {value : Value}

theorem take_fixedLe {more : ℕ} (short : length ≤ more) (value : ℕ) :
    (fixedLe more value).take length = fixedLe length value := by
  induction length generalizing more value with
  | zero => rfl
  | succ length ih =>
    obtain ⟨more, rfl⟩ := Nat.exists_eq_succ_of_ne_zero (Nat.ne_zero_of_lt short)
    rw [fixedLe, fixedLe, List.take_succ_cons, ih (Nat.le_of_succ_le_succ short)]

section

variable (short : length ≤ 16) (value : ℕ) (little : Bool)
include short

theorem writeUint_eq :
    writeUint length value little = arrange little (fixedLe length value) := by
  cases little with
  | false => exact congrArg List.reverse (take_fixedLe short value)
  | true => exact take_fixedLe short value

theorem length_writeUint :
    (writeUint length value little).length = length := by
  rw [writeUint_eq short, length_arrange, length_fixedLe]

theorem readUint_writeUint :
    readUint (writeUint length value little) little = value % 2 ^ (length * 8) := by
  rw [writeUint_eq short, readUint_eq, arrange_arrange, unsignedLe_fixedLe, mul_comm, pow_mul]
  rfl

end

theorem readUint_lt (src : List UInt8) (little : Bool) : readUint src little < 2 ^ (src.length * 8) := by
  have bound := unsignedLe_lt (arrange little src)
  rwa [length_arrange, ← readUint_eq, show 256 = 2 ^ 8 by rfl, ← pow_mul, mul_comm] at bound

theorem writeUint_readUint {src : List UInt8} (short : src.length ≤ 16) (little : Bool) :
    writeUint src.length (readUint src little) little = src := by
  have value := readUint_writeUint short (readUint src little) little
  rw [Nat.mod_eq_of_lt (readUint_lt src little), readUint_eq, readUint_eq] at value
  have same := unsignedLe_inj (by rw [length_arrange, length_arrange, length_writeUint short]) value
  rw [← readUint_eq] at same
  rw [← arrange_arrange little (writeUint _ _ _), same, arrange_arrange]

/-! ## Integers -/

/-- A number in the range of its kind is read back from its low bits. -/
theorem wrapped_signed {bits : ℕ} (positive : 0 < bits) {int : ℤ} (low : -2 ^ (bits - 1) ≤ int)
    (high : int ≤ 2 ^ (bits - 1) - 1) :
    (if 2 ^ (bits - 1) ≤ (int % 2 ^ bits).toNat then ((int % 2 ^ bits).toNat : ℤ) - 2 ^ bits
      else (int % 2 ^ bits).toNat) = int := by
  obtain ⟨half, rfl⟩ := Nat.exists_eq_succ_of_ne_zero positive.ne'
  rw [Nat.succ_sub_one] at low high ⊢
  have double : (2 : ℤ) ^ (half + 1) = 2 * 2 ^ half := by ring
  have whole : (0 : ℤ) < 2 ^ half := by positivity
  have nonneg : 0 ≤ int % 2 ^ (half + 1) := Int.emod_nonneg _ (by positivity)
  have toNat : ((int % 2 ^ (half + 1)).toNat : ℤ) = int % 2 ^ (half + 1) := Int.toNat_of_nonneg nonneg
  have compare : 2 ^ half ≤ (int % 2 ^ (half + 1)).toNat ↔ (2 : ℤ) ^ half ≤ int % 2 ^ (half + 1) := by
    rw [← Int.ofNat_le, toNat]
    push_cast
    rfl
  change (if 2 ^ half ≤ (int % 2 ^ (half + 1)).toNat then _ else _) = int
  by_cases negative : int < 0
  · have residue : int % 2 ^ (half + 1) = int + 2 ^ (half + 1) := by
      rw [← Int.add_mul_emod_self_left int (2 ^ (half + 1)) 1, mul_one,
        Int.emod_eq_of_lt (by omega) (by omega)]
    rw [if_pos (compare.mpr (by omega)), toNat, residue]
    exact add_sub_cancel_right int _
  · have residue : int % 2 ^ (half + 1) = int := Int.emod_eq_of_lt (by omega) (by omega)
    rw [if_neg (mt compare.mp (by omega)), toNat, residue]

/-- The bits of a word are the low bits of its value with a sign. -/
theorem unwrapped_signed {bits raw : ℕ} (positive : 0 < bits) (bound : raw < 2 ^ bits) :
    let int : ℤ := if 2 ^ (bits - 1) ≤ raw then (raw : ℤ) - 2 ^ bits else raw
    (-2 ^ (bits - 1) ≤ int ∧ int ≤ 2 ^ (bits - 1) - 1) ∧ (int % 2 ^ bits).toNat = raw := by
  obtain ⟨half, rfl⟩ := Nat.exists_eq_succ_of_ne_zero positive.ne'
  intro int
  have double : (2 : ℤ) ^ (half + 1) = 2 * 2 ^ half := by ring
  have whole : (0 : ℤ) < 2 ^ half := by positivity
  have high : (raw : ℤ) < 2 ^ (half + 1) := by exact_mod_cast bound
  have residue : (raw : ℤ) % 2 ^ (half + 1) = raw := Int.emod_eq_of_lt (Int.natCast_nonneg raw) high
  have compare : 2 ^ half ≤ raw ↔ (2 : ℤ) ^ half ≤ raw := by
    rw [← Int.ofNat_le]
    push_cast
    rfl
  change (-2 ^ half ≤ int ∧ int ≤ 2 ^ half - 1) ∧ (int % 2 ^ (half + 1)).toNat = raw
  by_cases large : 2 ^ half ≤ raw
  · have value : int = raw - 2 ^ (half + 1) := if_pos large
    have low := compare.mp large
    rw [value, Int.sub_emod_right, residue]
    exact ⟨⟨by omega, by omega⟩, Int.toNat_natCast raw⟩
  · have value : int = raw := if_neg large
    have low := mt compare.mpr large
    rw [value, residue]
    exact ⟨⟨by omega, by omega⟩, Int.toNat_natCast raw⟩

/-! ## Slices -/

theorem readAt_split (front middle back : List UInt8) (start : front.length = pos)
    (same : middle.length = length) : readAt (front ++ middle ++ back) pos length = .ok middle := by
  subst start same
  rw [readAt, if_pos (by simp), List.append_assoc, List.drop_left, List.take_left]

theorem writeAt_split (front middle back : List UInt8) (start : front.length = pos)
    (same : bytes.length = middle.length) :
    writeAt (front ++ middle ++ back) pos bytes = .ok (front ++ bytes ++ back) := by
  subst start
  rw [writeAt, if_pos (by simp [same]), same, ← List.length_append, List.drop_left,
    List.append_assoc front middle, List.take_left]

theorem writeAt_fits {out : List UInt8} (fits : pos + bytes.length ≤ out.length) :
    ∃ next, writeAt out pos bytes = .ok next ∧ next.length = out.length := by
  refine ⟨_, if_pos fits, ?_⟩
  simp only [List.length_append, List.length_take, List.length_drop]
  omega

theorem writeAt_zero {out : List UInt8} (fits : bytes.length ≤ out.length) :
    writeAt out 0 bytes = .ok (bytes ++ out.drop bytes.length) := by
  rw [writeAt, Nat.zero_add, if_pos fits, List.take_zero, List.nil_append]

/-! ## Elements -/

/-- The bytes of one element. -/
def Item.width (item : Item) : ℕ :=
  match item.kind with
  | .str | .pascal | .pad => item.count
  | _ => item.size

/-- A slice is written as a whole, or an error is raised. -/
def Fills (width : ℕ) (result : Except Failure (List UInt8)) : Prop :=
  (∃ bytes, result = .ok bytes ∧ bytes.length = width) ∨ ∃ message, result = .error (.raised message)

theorem fills_raised (width : ℕ) (message : String) : Fills width (raised message) :=
  Or.inr ⟨message, rfl⟩

variable {width : ℕ}

theorem fills_writeUint (length : dest.length = width) (short : width ≤ 16) (value : ℕ)
    (little : Bool) :
    Fills width (.ok (writeUint dest.length value little)) := by
  refine Or.inl ⟨_, rfl, ?_⟩
  rw [length, length_writeUint short]

theorem fills_writeAt (length : dest.length = width) (fits : pos + bytes.length ≤ width) :
    Fills width (writeAt dest pos bytes) := by
  obtain ⟨next, written, same⟩ := writeAt_fits (length.symm ▸ fits)
  exact Or.inl ⟨next, written, same.trans length⟩

theorem fills_writeAt_bind (length : dest.length = width) (fits : pos + bytes.length ≤ width)
    {next : List UInt8 → Except Failure (List UInt8)}
    (fills : ∀ dest, dest.length = width → Fills width (next dest)) :
    Fills width (writeAt dest pos bytes >>= next) := by
  obtain ⟨out, written, same⟩ := writeAt_fits (length.symm ▸ fits)
  rw [written]
  exact fills out (same.trans length)

theorem fills_packInteger (length : dest.length = width) (short : width ≤ 16) (value : Option ℤ)
    (little : Bool) :
    Fills width
      (match value with
      | none => raised "required argument is not an integer"
      | some int =>
        if (intBounds item.kind item.size).1 ≤ int ∧ int ≤ (intBounds item.kind item.size).2 then
          .ok (writeUint dest.length (int % 2 ^ (item.size * 8)).toNat little)
        else raised (rangeErrorMessage item)) := by
  cases value with
  | none => exact fills_raised width _
  | some int =>
    dsimp only
    split_ifs
    · exact fills_writeUint length short _ little
    · exact fills_raised width _

theorem fills_packElement (sized : item.kind.Sized item.size) (length : dest.length = item.width)
    (floats : FloatCodec) (value : Value) (little : Bool) :
    Fills item.width (packElement floats dest value item little) := by
  obtain ⟨code, kind, count, size, padBefore⟩ := item
  cases kind with
  | pad => exact Or.inl ⟨dest, rfl, length⟩
  | signed | unsigned => exact fills_packInteger length (by exact sized.2.trans (by decide)) _ little
  | bool =>
    unfold packElement
    dsimp only
    cases value.isTrue with
    | ok truth => exact fills_writeAt length (by exact sized.ge)
    | error message => exact fills_raised _ message
  | char =>
    unfold packElement
    dsimp only
    split
    · exact fills_writeAt length (by exact sized.ge)
    · exact fills_raised _ _
  | str =>
    unfold packElement
    dsimp only
    cases value.asBytes with
    | none => exact fills_raised _ _
    | some payload =>
      refine fills_writeAt length ?_
      rw [List.length_take]
      exact (Nat.zero_add _).le.trans ((min_le_left _ _).trans (min_le_right _ _))
  | pascal =>
    unfold packElement
    dsimp only
    cases value.asBytes with
    | none => exact fills_raised _ _
    | some payload =>
      dsimp only
      by_cases empty : count = 0
      · rw [if_pos empty]
        exact Or.inl ⟨dest, rfl, length⟩
      · rw [if_neg empty]
        refine fills_writeAt_bind length ?_ fun dest length ↦ fills_writeAt length ?_
        · exact Nat.one_le_iff_ne_zero.mpr empty
        · rw [List.length_take]
          change _ ≤ count
          omega
  | float =>
    unfold packElement
    dsimp only
    cases floats.toBits size value with
    | ok bits =>
      refine fills_writeUint length ?_ bits little
      change size ≤ 16
      change size = 2 ∨ size = 4 ∨ size = 8 at sized
      omega
    | error message => exact fills_raised _ message
  | complex =>
    unfold packElement
    dsimp only
    change size = 8 ∨ size = 16 at sized
    cases floats.toParts size value with
    | ok parts =>
      have half : (if size = 8 then 4 else 8) + (if size = 8 then 4 else 8) = size := by
        split_ifs <;> omega
      have short : (if size = 8 then 4 else 8) ≤ 16 := by
        split_ifs <;> decide
      refine fills_writeAt_bind length ?_ fun dest length ↦ fills_writeAt length ?_
      · rw [length_writeUint short]
        change _ ≤ size
        omega
      · rw [length_writeUint short]
        exact half.le
    | error message => exact fills_raised _ message

/-! ## Round trip of an element -/

/-- An integer in range, a value with a truth, a single byte or a byte string, as the item asks. -/
def Item.Accepts (item : Item) (value : Value) : Prop :=
  match item.kind with
  | .signed | .unsigned =>
    ∃ int, value.toBigint = some int ∧
      (intBounds item.kind item.size).1 ≤ int ∧ int ≤ (intBounds item.kind item.size).2
  | .bool => ∃ truth, value.isTrue = .ok truth
  | .char => ∃ byte, value.bufferArg = some [byte]
  | .str | .pascal => ∃ payload, value.asBytes = some payload
  | .pad | .float | .complex => False

/-- What a packed value is unpacked as. -/
def Item.canonical (item : Item) (value : Value) : Value :=
  match item.kind with
  | .signed | .unsigned => .int (value.toBigint.getD 0)
  | .bool => .bool (value.isTrue.toOption.getD false)
  | .char => .bytes (value.bufferArg.getD [])
  | .str =>
    let payload := value.asBytes.getD []
    .bytes (payload.take item.count ++ List.replicate (item.count - payload.length) 0)
  | .pascal => .bytes ((value.asBytes.getD []).take (min (item.count - 1) 255))
  | .pad | .float | .complex => value

def zeros (length : ℕ) : List UInt8 := List.replicate length 0

@[simp]
theorem length_zeros (length : ℕ) : (zeros length).length = length := List.length_replicate

/-- A packed element has the bytes of its item and is unpacked in canonical form. -/
def RoundTrips (floats : FloatCodec) (little : Bool) (item : Item) (value : Value) : Prop :=
  ∃ bytes, packElement floats (zeros item.width) value item little = .ok bytes ∧
    bytes.length = item.width ∧ unpackElement floats bytes item little = .ok (item.canonical value)

theorem roundTrips_signed (isSigned : item.kind = .signed) (sized : 0 < item.size ∧ item.size ≤ 8)
    (accepts : item.Accepts value) : RoundTrips floats little item value := by
  obtain ⟨code, kind, count, size, padBefore⟩ := item
  subst isSigned
  obtain ⟨int, isInt, low, high⟩ := accepts
  have short : size ≤ 16 := sized.2.trans (by decide)
  refine ⟨writeUint size (int % 2 ^ (size * 8)).toNat little, ?_, length_writeUint short _ little, ?_⟩
  · unfold packElement
    dsimp only
    rw [isInt]
    dsimp only
    rw [if_pos ⟨low, high⟩, length_zeros]
    rfl
  · have small : (int % 2 ^ (size * 8)).toNat % 2 ^ (size * 8) = (int % 2 ^ (size * 8)).toNat := by
      refine Nat.mod_eq_of_lt ?_
      rw [← Int.ofNat_lt, Int.toNat_of_nonneg (Int.emod_nonneg _ (by positivity))]
      push_cast
      exact Int.emod_lt_of_pos _ (by positivity)
    unfold unpackElement Item.canonical
    dsimp only
    rw [readUint_writeUint short, small, wrapped_signed (by omega) low high, isInt]
    rfl

theorem roundTrips_unsigned (isUnsigned : item.kind = .unsigned)
    (sized : 0 < item.size ∧ item.size ≤ 8) (accepts : item.Accepts value) :
    RoundTrips floats little item value := by
  obtain ⟨code, kind, count, size, padBefore⟩ := item
  subst isUnsigned
  obtain ⟨int, isInt, low, high⟩ := accepts
  have short : size ≤ 16 := sized.2.trans (by decide)
  refine ⟨writeUint size (int % 2 ^ (size * 8)).toNat little, ?_, length_writeUint short _ little, ?_⟩
  · unfold packElement
    dsimp only
    rw [isInt]
    dsimp only
    rw [if_pos ⟨low, high⟩, length_zeros]
    rfl
  · change 0 ≤ int at low
    change int ≤ 2 ^ (size * 8) - 1 at high
    have same : int % 2 ^ (size * 8) = int := Int.emod_eq_of_lt low (by omega)
    have small : int.toNat < 2 ^ (size * 8) := by
      rw [← Int.ofNat_lt, Int.toNat_of_nonneg low]
      push_cast
      omega
    unfold unpackElement Item.canonical
    dsimp only
    rw [readUint_writeUint short, same, Nat.mod_eq_of_lt small, Int.toNat_of_nonneg low, isInt]
    rfl

theorem roundTrips_pascal (isPascal : item.kind = .pascal) (accepts : item.Accepts value) :
    RoundTrips floats little item value := by
  obtain ⟨code, kind, count, size, padBefore⟩ := item
  subst isPascal
  obtain ⟨payload, isPayload⟩ := accepts
  unfold RoundTrips packElement unpackElement Item.canonical
  dsimp only
  rw [isPayload]
  dsimp only
  by_cases empty : count = 0
  · subst empty
    refine ⟨[], rfl, rfl, ?_⟩
    rfl
  · obtain ⟨room, rfl⟩ := Nat.exists_eq_succ_of_ne_zero empty
    have whole : zeros (room + 1) = [] ++ [0] ++ zeros room := rfl
    have known : ∃ n, n = min (min payload.length (room + 1 - 1)) 255 := ⟨_, rfl⟩
    obtain ⟨n, isLength⟩ := known
    have taken : (payload.take n).length = n := by
      rw [List.length_take]
      omega
    have rest : zeros room = zeros n ++ zeros (room - n) := by
      rw [zeros, zeros, zeros, List.replicate_append_replicate, Nat.add_sub_cancel' (by omega)]
    have first : n.toUInt8.toNat = n := UInt8.toNat_ofNat_of_lt' (by
      change n < 256
      omega)
    rw [if_neg empty]
    refine ⟨[n.toUInt8] ++ payload.take n ++ zeros (room - n), ?_, ?_, ?_⟩
    · change writeAt (zeros (room + 1)) 0 [(min (min payload.length (room + 1 - 1)) 255).toUInt8] >>=
        (fun dest ↦ writeAt dest 1 (payload.take (min (min payload.length (room + 1 - 1)) 255))) = _
      have first : writeAt ([] ++ [0] ++ zeros room) 0 [n.toUInt8] =
          .ok ([] ++ [n.toUInt8] ++ zeros room) := writeAt_split [] [0] (zeros room) rfl rfl
      rw [← isLength, whole, first, rest, ← List.append_assoc]
      exact writeAt_split [n.toUInt8] (zeros n) (zeros (room - n)) rfl (by rw [taken, length_zeros])
    · simp only [List.length_append, List.length_singleton, taken, length_zeros]
      change _ = room + 1
      omega
    · have shorter : min n.toUInt8.toNat (room + 1 - 1) = n := by omega
      refine (if_neg empty).trans ?_
      change (do
        let payload ← readAt _ 1 (min n.toUInt8.toNat (room + 1 - 1))
        Except.ok (Value.bytes payload)) = _
      have read : readAt ([n.toUInt8] ++ payload.take n ++ zeros (room - n)) 1 n =
          .ok (payload.take n) := readAt_split [n.toUInt8] (payload.take n) (zeros (room - n)) rfl taken
      rw [shorter, read]
      refine congrArg (fun taken ↦ Except.ok (Value.bytes taken)) (List.take_eq_take_iff.mpr ?_)
      omega

theorem roundTrips_str (isStr : item.kind = .str) (accepts : item.Accepts value) :
    RoundTrips floats little item value := by
  obtain ⟨code, kind, count, size, padBefore⟩ := item
  subst isStr
  obtain ⟨payload, isPayload⟩ := accepts
  unfold RoundTrips packElement unpackElement Item.canonical
  dsimp only
  rw [isPayload]
  dsimp only
  have fits : (payload.take (min payload.length count)).length ≤ (zeros count).length := by
    rw [List.length_take, length_zeros]
    omega
  refine ⟨_, writeAt_zero fits, ?_, ?_⟩
  · rw [List.length_append, List.length_drop]
    exact (Nat.add_sub_cancel' fits).trans (length_zeros count)
  · have taken : payload.take (min payload.length count) = payload.take count :=
      List.take_eq_take_iff.mpr (by omega)
    have rest : count - (payload.take count).length = count - payload.length := by
      rw [List.length_take]
      omega
    change Except.ok (Value.bytes (_ ++ (List.replicate count 0).drop _)) = _
    rw [taken, List.drop_replicate, rest, Option.getD_some]

theorem roundTrips_of_accepts (sized : item.kind.Sized item.size) (accepts : item.Accepts value) :
    RoundTrips floats little item value := by
  cases kind : item.kind with
  | pad | float | complex =>
    unfold Item.Accepts at accepts
    rw [kind] at accepts
    exact accepts.elim
  | signed => exact roundTrips_signed kind (by rwa [kind] at sized) accepts
  | unsigned => exact roundTrips_unsigned kind (by rwa [kind] at sized) accepts
  | str => exact roundTrips_str kind accepts
  | pascal => exact roundTrips_pascal kind accepts
  | bool =>
    obtain ⟨code, _, count, size, padBefore⟩ := item
    subst kind
    obtain rfl : size = 1 := sized
    obtain ⟨truth, isTruth⟩ := accepts
    refine ⟨[if truth then 1 else 0], ?_, rfl, ?_⟩
    · unfold packElement
      dsimp only
      rw [isTruth]
      rfl
    · unfold unpackElement Item.canonical
      rw [isTruth]
      cases truth <;> rfl
  | char =>
    obtain ⟨code, _, count, size, padBefore⟩ := item
    subst kind
    obtain rfl : size = 1 := sized
    obtain ⟨byte, isByte⟩ := accepts
    refine ⟨[byte], ?_, rfl, ?_⟩
    · unfold packElement
      dsimp only
      rw [isByte]
      rfl
    · unfold unpackElement Item.canonical
      rw [isByte]
      rfl

/-- The items whose bytes are all told by their values. -/
def Item.Plain (item : Item) : Prop :=
  item.kind = .pad ∨ item.kind = .signed ∨ item.kind = .unsigned ∨ item.kind = .char ∨ item.kind = .str

/-- The bytes of an integer, a character or a string are packed again. -/
theorem restores_element (sized : item.kind.Sized item.size) (plain : item.Plain)
    (notPad : item.kind ≠ .pad) {src : List UInt8} (length : src.length = item.width) :
    ∃ value, unpackElement floats src item little = .ok value ∧
      packElement floats (zeros item.width) value item little = .ok src := by
  obtain ⟨code, kind, count, size, padBefore⟩ := item
  have written (size : ℕ) (length : src.length = size) (short : size ≤ 8) :
      writeUint (zeros size).length (readUint src little) little = src := by
    rw [length_zeros, ← length]
    exact writeUint_readUint (by omega) little
  obtain rfl | rfl | rfl | rfl | rfl := plain
  · exact absurd rfl notPad
  · change 0 < size ∧ size ≤ 8 at sized
    have bound := readUint_lt src little
    rw [length] at bound
    have unwrapped := unwrapped_signed (show 0 < size * 8 by omega) bound
    refine ⟨_, rfl, ?_⟩
    refine (if_pos unwrapped.1).trans (congrArg Except.ok ?_)
    exact (congrArg (fun raw ↦ writeUint (zeros size).length raw little) unwrapped.2).trans
      (written size length sized.2)
  · change 0 < size ∧ size ≤ 8 at sized
    have bound := readUint_lt src little
    rw [length] at bound
    have high : (readUint src little : ℤ) < 2 ^ (size * 8) := by exact_mod_cast bound
    refine ⟨_, rfl, ?_⟩
    refine (if_pos ⟨Int.natCast_nonneg _, Int.le_sub_one_of_lt high⟩).trans (congrArg Except.ok ?_)
    rw [Int.emod_eq_of_lt (Int.natCast_nonneg _) high, Int.toNat_natCast]
    exact written size length sized.2
  · obtain rfl : size = 1 := sized
    obtain ⟨byte, rfl⟩ := List.length_eq_one_iff.mp length
    exact ⟨.bytes [byte], rfl, rfl⟩
  · refine ⟨.bytes src, rfl, ?_⟩
    change src.length = count at length
    have whole : src.take (min src.length count) = src := List.take_of_length_le (by omega)
    change writeAt (zeros count) 0 (src.take (min src.length count)) = _
    rw [whole, writeAt_zero (by rw [length, length_zeros]), List.drop_of_length_le (by rw [length, length_zeros]),
      List.append_nil]

end Pon.Struct
