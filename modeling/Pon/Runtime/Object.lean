import Pon.Runtime.Number

/-!
# Objects that hold an integer

An object is a word: an immediate integer, tagged in its low bits, or the address of a heap object. A
boxed `int` keeps 64 bits inline. The payload of a wider one is kept in a table by the address of the
object, whose inline payload is zero. Readers of integers go by the tag, by the name of the class and
by the table.
-/

namespace Pon.Object

open Number Ir

abbrev Ptr := BitVec 64

def tagIntBit : Ptr := 1

def tagMask : Ptr := 3

def smallIntMin : ℤ := -2 ^ 62

def smallIntMax : ℤ := 2 ^ 62 - 1

def isSmallInt (p : Ptr) : Bool := p &&& tagIntBit != 0

def isHeap (p : Ptr) : Bool := p &&& tagMask == 0

def tagSmallInt (v : BitVec 64) : Ptr := v <<< 1 ||| tagIntBit

def untagSmallInt (p : Ptr) : Int64 := ⟨⟨p.sshiftRight 1⟩⟩

/-- The fields of a type object that the readers look at. Its methods resolution order is that of its
identities in the type table. -/
structure PyType where
  name : String
  basicsize : ℕ
  isHeapInstance : Bool
  mro : List ℕ
deriving DecidableEq, Repr

/-- A heap object: its type, the word behind its header, and the word at the end of an instance with a
payload. -/
structure PyObject where
  obType : ℕ
  value : Int64
  payload : Ptr
deriving DecidableEq

/-- `size_of::<PyLong>()`: the header of two words and the value. -/
def sizeOfPyLong : ℕ := 24

/-- `size_of::<PyPayloadSubclassInstance>()`: the header, the dict, a vector, two more words, and the
payload. -/
def sizeOfPyPayloadSubclassInstance : ℕ := 72

/-- The type objects by identity, the foreign types that stand for one of them, the heap, and the
payloads of wide integers. -/
structure Runtime where
  types : ℕ → PyType
  nativeOfForeign : ℕ → Option ℕ
  longType : ℕ
  heap : Ptr → Option PyObject
  bigInts : Ptr → Option ℤ

section Readers

variable (rt : Runtime) (object : Ptr)

/-- The object that a pointer refers to. A pointer to no object is never read. -/
def Runtime.deref : Option PyObject :=
  if object = 0 ∨ isHeap object = false then none else rt.heap object

def typeNameIs (expected : String) : Bool :=
  if isSmallInt object then expected == "int"
  else
    match rt.deref object with
    | none => false
    | some o => (rt.types o.obType).name == expected

def isExactInt : Bool := typeNameIs rt object "int"

def isPayloadSubclassInstance (o : PyObject) : Bool :=
  (rt.types o.obType).isHeapInstance && (rt.types o.obType).basicsize == sizeOfPyPayloadSubclassInstance

def payloadSubclassValue : Option Ptr :=
  match rt.deref object with
  | none => none
  | some o => if isPayloadSubclassInstance rt o && o.payload != 0 then some o.payload else none

/-- `(*object.cast::<PyLong>()).value`, which is only read after a check of the type. -/
def inlineValue : Int64 := ((rt.deref object).map PyObject.value).getD 0

/-- `(*object.cast::<PyBool>()).value`, the lowest byte of the word. -/
def inlineBool : Bool := (inlineValue rt object).toInt % 256 != 0

def toBool : Option Bool :=
  if typeNameIs rt object "bool" then some (inlineBool rt object) else none

/-- The end of `to_bigint`, after the payload of a subclass is taken. -/
def boxedToBigint : Option ℤ :=
  if isSmallInt object then some (untagSmallInt object).toInt
  else if isExactInt rt object = false then none
  else
    match rt.bigInts object with
    | some value => some value
    | none => some (inlineValue rt object).toInt

def toBigint : Option ℤ :=
  if isSmallInt object then some (untagSmallInt object).toInt
  else boxedToBigint rt ((payloadSubclassValue rt object).getD object)

/-- The end of `to_i64`, after the payload of a subclass is taken. -/
def boxedToI64 : Option Int64 :=
  if isSmallInt object then some (untagSmallInt object)
  else if isExactInt rt object = false then none
  else
    match rt.bigInts object with
    | some value => checked value
    | none => some (inlineValue rt object)

def toI64 : Option Int64 :=
  if isSmallInt object then some (untagSmallInt object)
  else boxedToI64 rt ((payloadSubclassValue rt object).getD object)

def toExactInlineI64 : Option Int64 :=
  if isSmallInt object then some (untagSmallInt object)
  else if isExactInt rt object = false then none
  else
    let value := inlineValue rt object
    if value = 0 ∧ (rt.bigInts object).isSome then none else some value

def toExactInlineI64IncludingBool : Option Int64 :=
  match toBool rt object with
  | some value => some (if value then 1 else 0)
  | none => toExactInlineI64 rt object

def toBigintIncludingBool : Option ℤ :=
  if isSmallInt object then some (untagSmallInt object).toInt
  else
    match toBool rt object with
    | some value => some (if value then 1 else 0)
    | none => toBigint rt object

def toI64IncludingBool : Option Int64 :=
  if isSmallInt object then some (untagSmallInt object)
  else
    match toBool rt object with
    | some value => some (if value then 1 else 0)
    | none => toI64 rt object

/-- The type by which operators dispatch. -/
def objectType : Option ℕ :=
  match rt.deref object with
  | none => none
  | some o => some ((rt.nativeOfForeign o.obType).getD o.obType)

def isExactPylong : Bool :=
  match objectType rt object with
  | none => false
  | some ty => (rt.types ty).basicsize == sizeOfPyLong && (rt.types ty).name == "int"

/-- `is_true` of an immediate or an exact `int`; `none` goes on to the other protocols. -/
def isTrue : Option ℤ :=
  if isSmallInt object then some (if untagSmallInt object != 0 then 1 else 0)
  else if isExactPylong rt object then some (if inlineValue rt object != 0 then 1 else 0)
  else none

/-- `rich_numeric_value` of an integer; `none` goes on to floats and complex numbers. -/
def richNumericValue : Option IntValue :=
  match toI64IncludingBool rt object with
  | some value => some (.intI64 value)
  | none => (toBigint rt object).map .int

end Readers

/-- `rich_compare` of two operands that both read as integers. -/
def richCompare (rt : Runtime) (op : CmpOp) (a b : Ptr) : Option PyResult := do
  let left ← richNumericValue rt a
  let right ← richNumericValue rt b
  pure (richCompareNumeric op left right)

/-- Where the allocator puts the next object; `none` if it has no memory. -/
abbrev Allocator := Runtime → Option Ptr

section Allocation

variable (alloc : Allocator)

def allocLong (rt : Runtime) (value : Int64) : Option (Ptr × Runtime) := do
  let p ← alloc rt
  let object : PyObject := { obType := rt.longType, value, payload := 0 }
  pure (p, { rt with heap := Function.update rt.heap p (some object) })

/-- `boxed_const_int`, and `pon_const_int`, which boxes as well. -/
def boxedConstInt (rt : Runtime) (value : Int64) : Option (Ptr × Runtime) :=
  allocLong alloc rt value

def fromBigint (rt : Runtime) (value : ℤ) : Option (Ptr × Runtime) :=
  match checked value with
  | some inline => boxedConstInt alloc rt inline
  | none => do
    let (template, rt) ← boxedConstInt alloc rt 0
    let ty := ((rt.deref template).map PyObject.obType).getD 0
    let p ← alloc rt
    let object : PyObject := { obType := ty, value := 0, payload := 0 }
    pure (p, { rt with
      heap := Function.update rt.heap p (some object)
      bigInts := Function.update rt.bigInts p (some value) })

def untagArg (rt : Runtime) (p : Ptr) : Option (Ptr × Runtime) :=
  if isSmallInt p then boxedConstInt alloc rt (untagSmallInt p) else some (p, rt)

/-- The outcome of an addition: a value, no memory, or that the operands go on to their slots. -/
inductive Added where
  | value (object : Ptr) (rt : Runtime)
  | noMemory
  | dispatch (rt : Runtime)

def Added.ofAlloc : Option (Ptr × Runtime) → Added
  | some (object, rt) => .value object rt
  | none => .noMemory

/-- `binary_op_flavored` for an addition of boxed operands. -/
def addBoxed (rt : Runtime) (a b : Ptr) : Added :=
  if isExactPylong rt a && isExactPylong rt b then
    let left := inlineValue rt a
    let right := inlineValue rt b
    let sum := if left ≠ 0 ∧ right ≠ 0 then checked (left.toInt + right.toInt) else none
    match sum with
    | some sum => .ofAlloc (boxedConstInt alloc rt sum)
    | none =>
      match toBigint rt a, toBigint rt b with
      | some left, some right => .ofAlloc (fromBigint alloc rt (left + right))
      | _, _ => .dispatch rt
  else .dispatch rt

/-- `binary_op` for an addition: immediates are boxed first. -/
def binaryAdd (rt : Runtime) (a b : Ptr) : Added :=
  if isSmallInt a || isSmallInt b then
    match untagArg alloc rt a with
    | none => .noMemory
    | some (a, rt) =>
      match untagArg alloc rt b with
      | none => .noMemory
      | some (b, rt) => addBoxed alloc rt a b
  else addBoxed alloc rt a b

end Allocation

end Pon.Object
