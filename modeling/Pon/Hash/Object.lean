import Pon.Hash.Numeric

/-!
# Hashing and structural equality of objects

The immutable values that serve as dict keys and set elements, with `object_equal_structural` and
`hash_object` on them. A heap object carries its address, because both functions compare pointers;
a tagged small integer is its own word. Python-level hooks of tuple subclasses are reached through
`Hooks`. The hash cache of a frozenset is left out: the entries never change, so the cached value is
the computed one.
-/

namespace Pon.Hash

/-- The result of resolving `__hash__` in a class namespace: the marker `None`, or a function. -/
inductive HashHook
  | unhashable
  | function (id : ℕ)
deriving DecidableEq

/-- Type names by which the runtime recognises the layout of an object. -/
def layoutNames : List String :=
  ["int", "bool", "float", "complex", "str", "bytes"]

/-- A heap class over `tuple`. Its name is not one by which the runtime would take an instance for
an object of another layout. -/
structure TupleClass where
  name : String
  definesEq : Bool
  hashHook : Option HashHook
  name_ok : name ∉ layoutNames

/-- The objects, each heap object with its address. -/
inductive Value
  | none (addr : ℕ)
  | bool (addr : ℕ) (value : Bool)
  | smallInt (value : ℤ)
  | int (addr : ℕ) (value : ℤ)
  | float (addr : ℕ) (value : F64)
  | complex (addr : ℕ) (real imag : F64)
  | str (addr : ℕ) (utf8 : List UInt8)
  | bytes (addr : ℕ) (data : List UInt8)
  | tuple (addr : ℕ) (items : List Value)
  | tupleSubclass (addr : ℕ) (cls : TupleClass) (items : List Value)
  | frozenset (addr : ℕ) (entries : List Value)

/-- The machine word of a reference: a tagged integer or an address. -/
def Value.word : Value → ℤ ⊕ ℕ
  | .smallInt value => .inl value
  | .none addr | .bool addr _ | .int addr _ | .float addr _ | .complex addr _ _ | .str addr _
  | .bytes addr _ | .tuple addr _ | .tupleSubclass addr _ _ | .frozenset addr _ => .inr addr

def typeName : Value → String
  | .none _ => "NoneType"
  | .bool _ _ => "bool"
  | .smallInt _ => "int"
  | .int _ _ => "int"
  | .float _ _ => "float"
  | .complex _ _ _ => "complex"
  | .str _ _ => "str"
  | .bytes _ _ => "bytes"
  | .tuple _ _ => "tuple"
  | .tupleSubclass _ cls _ => cls.name
  | .frozenset _ _ => "frozenset"

/-- Python-level code that hashing and comparing may run. -/
structure Hooks where
  /-- Call of a `__hash__` function: an error, or the integer it returned if it returned one. -/
  callHash : ℕ → Value → Except String (Option ℤ)
  /-- Rich comparison of two objects, one of which defines `__eq__`. -/
  dispatchUserEq : Value → Value → Except String Bool

/-- The test that `user_dunder(object, "__eq__")` is not NULL. -/
def definesEq : Value → Bool
  | .tupleSubclass _ cls _ => cls.definesEq
  | _ => false

def toBigintIncludingBool : Value → Option ℤ
  | .smallInt value => some value
  | .bool _ value => some (if value then 1 else 0)
  | .int _ value => some value
  | _ => none

def toF64 : Value → Option F64
  | .float _ value => some value
  | _ => none

def toF64s : Value → Option (F64 × F64)
  | .complex _ real imag => some (real, imag)
  | _ => none

def fromUtf8 (utf8 : List UInt8) : Option String :=
  String.fromUTF8? ⟨utf8.toArray⟩

/-- The bytes behind `unicode_text`, when they are valid. -/
def unicodeText : Value → Option (List UInt8)
  | .str _ utf8 => if (fromUtf8 utf8).isSome then some utf8 else none
  | _ => none

def bytesPayloadSlice : Value → Option (List UInt8)
  | .bytes _ data => some data
  | _ => none

def numericFloatEqual (float : F64) (other : Value) : Bool :=
  match toF64 other with
  | some other => floatEq float other
  | none =>
    match toF64s other with
    | some (real, imag) => isZero imag && floatEq float real
    | none => false

def numericIntEqual (integer : ℤ) (other : Value) : Bool :=
  match toBigintIncludingBool other with
  | some other => integer == other
  | none =>
    match toF64 other with
    | some other => floatEqualsInt other integer
    | none =>
      match toF64s other with
      | some (real, imag) => isZero imag && floatEqualsInt real integer
      | none => false

def numericObjectEqual (left right : Value) : Option Bool :=
  match toBigintIncludingBool left, toBigintIncludingBool right with
  | some leftInt, _ => some (numericIntEqual leftInt right)
  | none, some rightInt => some (numericIntEqual rightInt left)
  | none, none =>
    match toF64 left, toF64 right with
    | some leftFloat, _ => some (numericFloatEqual leftFloat right)
    | none, some rightFloat => some (numericFloatEqual rightFloat left)
    | none, none =>
      match toF64s left, toF64s right with
      | some (leftReal, leftImag), some (rightReal, rightImag) =>
        some (floatEq leftReal rightReal && floatEq leftImag rightImag)
      | _, _ => none

mutual

/-- `object_equal_structural`; `none` leaves the comparison to a Python-level `__eq__`. -/
def objectEqualStructural (hooks : Hooks) (left right : Value) : Option (Except String Bool) :=
  if left.word = right.word then
    some (.ok true)
  else if definesEq left || definesEq right then
    none
  else
    match numericObjectEqual left right with
    | some equal => some (.ok equal)
    | none =>
      match unicodeText left, unicodeText right with
      | some leftText, some rightText => some (.ok (leftText == rightText))
      | _, _ =>
        match bytesPayloadSlice left, bytesPayloadSlice right with
        | some leftBytes, some rightBytes => some (.ok (leftBytes == rightBytes))
        | _, _ =>
          match left, right with
          | .tupleSubclass _ _ l, .tupleSubclass _ _ r => slicesEqualStructural hooks l r
          | .tupleSubclass _ _ l, .tuple _ r => slicesEqualStructural hooks l r
          | .tuple _ l, .tupleSubclass _ _ r => slicesEqualStructural hooks l r
          | .str _ l, .str _ r => some (.ok (l == r))
          | .bytes _ l, .bytes _ r => some (.ok (l == r))
          | .frozenset _ l, .frozenset _ r => some (setEqual hooks l r)
          | .tuple _ l, .tuple _ r => slicesEqualStructural hooks l r
          | _, _ => some (.ok false)
termination_by (sizeOf left + sizeOf right, 0)

def slicesEqualStructural (hooks : Hooks) (l r : List Value) : Option (Except String Bool) :=
  if l.length ≠ r.length then some (.ok false) else zipEqual hooks l r
termination_by (sizeOf l + sizeOf r, 1)

/-- The element-wise loop of `slices_equal_structural`. -/
def zipEqual (hooks : Hooks) (l r : List Value) : Option (Except String Bool) :=
  match l, r with
  | a :: l, b :: r =>
    match objectEqualStructural hooks a b with
    | some (.ok true) => zipEqual hooks l r
    | other => other
  | _, _ => some (.ok true)
termination_by (sizeOf l + sizeOf r, 0)

def objectEqual (hooks : Hooks) (left right : Value) : Except String Bool :=
  match objectEqualStructural hooks left right with
  | some result => result
  | none => hooks.dispatchUserEq left right
termination_by (sizeOf left + sizeOf right, 1)

/-- `set_equal` on the entry snapshots. -/
def setEqual (hooks : Hooks) (leftEntries rightEntries : List Value) : Except String Bool :=
  if leftEntries.length ≠ rightEntries.length then
    .ok false
  else
    entriesSubset hooks leftEntries rightEntries
termination_by (sizeOf leftEntries + sizeOf rightEntries, 1)

/-- The loop of `set_equal` over the left entries. -/
def entriesSubset (hooks : Hooks) (leftEntries rightEntries : List Value) : Except String Bool :=
  match leftEntries with
  | [] => .ok true
  | item :: rest =>
    match findElementIndex hooks rightEntries item 0 with
    | .error message => .error message
    | .ok none => .ok false
    | .ok (some _) => entriesSubset hooks rest rightEntries
termination_by (sizeOf leftEntries + sizeOf rightEntries, 0)

/-- `find_element_index`, from the entry at `index` on. -/
def findElementIndex (hooks : Hooks) (entries : List Value) (item : Value) (index : ℕ) :
    Except String (Option ℕ) :=
  match entries with
  | [] => .ok none
  | entry :: rest =>
    match objectEqual hooks entry item with
    | .error message => .error message
    | .ok true => .ok (some index)
    | .ok false => findElementIndex hooks rest item (index + 1)
termination_by (sizeOf entries + sizeOf item, 0)

end

/-- The four words of the SipHash state. -/
structure SipState where
  v0 : BitVec 64
  v1 : BitVec 64
  v2 : BitVec 64
  v3 : BitVec 64

def singleRound (v : SipState) : SipState :=
  let v0 := v.v0 + v.v1
  let v2 := v.v2 + v.v3
  let v1 := v.v1.rotateLeft 13 ^^^ v0
  let v3 := v.v3.rotateLeft 16 ^^^ v2
  let v0 := v0.rotateLeft 32
  let v2 := v2 + v1
  let v0 := v0 + v3
  let v1 := v1.rotateLeft 17 ^^^ v2
  let v3 := v3.rotateLeft 21 ^^^ v0
  let v2 := v2.rotateLeft 32
  { v0, v1, v2, v3 }

/-- The word whose little-endian bytes are `data`, padded with zeros. -/
def fromLeBytes (data : List UInt8) : BitVec 64 :=
  BitVec.ofNat 64 (data.foldr (fun byte rest ↦ byte.toNat + 256 * rest) 0)

/-- The block loop over `chunks_exact(8)`, with the remainder of the data. -/
def sipBlocks (v : SipState) : List UInt8 → SipState × List UInt8
  | b0 :: b1 :: b2 :: b3 :: b4 :: b5 :: b6 :: b7 :: rest =>
    let mi := fromLeBytes [b0, b1, b2, b3, b4, b5, b6, b7]
    let v := singleRound { v with v3 := v.v3 ^^^ mi }
    sipBlocks { v with v0 := v.v0 ^^^ mi } rest
  | tail => (v, tail)

def siphash13 (k0 k1 : BitVec 64) (data : List UInt8) : BitVec 64 :=
  let start : SipState :=
    { v0 := k0 ^^^ 0x736f6d6570736575#64
      v1 := k1 ^^^ 0x646f72616e646f6d#64
      v2 := k0 ^^^ 0x6c7967656e657261#64
      v3 := k1 ^^^ 0x7465646279746573#64 }
  let (v, tail) := sipBlocks start data
  let b := (BitVec.ofNat 64 data.length <<< 56) ||| fromLeBytes tail
  let v := singleRound { v with v3 := v.v3 ^^^ b }
  let v := { v with v0 := v.v0 ^^^ b, v2 := v.v2 ^^^ 0xff#64 }
  let v := singleRound (singleRound (singleRound v))
  (v.v0 ^^^ v.v1) ^^^ (v.v2 ^^^ v.v3)

def normalizeHash (hash : BitVec 64) : BitVec 64 :=
  if hash = BitVec.ofInt 64 (-1) then BitVec.ofInt 64 (-2) else hash

def bytesHash (data : List UInt8) : BitVec 64 :=
  if data.isEmpty then 0#64 else normalizeHash (siphash13 0#64 0#64 data)

/-- Little-endian bytes of a code unit of `width` bytes. -/
def unitToLeBytes (width : ℕ) (code : ℕ) : List UInt8 :=
  (List.range width).map fun i ↦ UInt8.ofNat (code / 256 ^ i)

def strHash (text : String) (utf8 : List UInt8) : BitVec 64 :=
  if text.isEmpty then
    0#64
  else
    let codes := text.toList.map Char.toNat
    let widest := codes.foldl max 0
    if widest < 0x80 then
      bytesHash utf8
    else if widest < 0x100 then
      bytesHash (codes.flatMap (unitToLeBytes 1))
    else if widest < 0x10000 then
      bytesHash (codes.flatMap (unitToLeBytes 2))
    else
      bytesHash (codes.flatMap (unitToLeBytes 4))

def dispatchUserHash (hooks : Hooks) (object : Value) : HashHook → Except String (BitVec 64)
  | .unhashable => .error ("unhashable type: '" ++ typeName object ++ "'")
  | .function id =>
    match hooks.callHash id object with
    | .error message => .error message
    | .ok none => .error "__hash__ method should return an integer"
    | .ok (some value) =>
      if -2 ^ 63 ≤ value ∧ value < 2 ^ 63 then
        .ok (BitVec.ofInt 64 value)
      else
        .ok (hashBigint value)

/-- The error of an unhashable element as `hash_set_element` reports it. -/
def setElementError (item : Value) (message : String) : String :=
  if message.startsWith "unhashable type" then
    "cannot use '" ++ typeName item ++ "' as a set element (" ++ message ++ ")"
  else
    message

def shuffleBits (hash : BitVec 64) : BitVec 64 :=
  ((hash ^^^ 89869747#64) ^^^ (hash <<< 16)) * 3644798167#64

/-- The end of the frozenset hash, from the mixed element hashes and the number of elements. -/
def finishFrozensetHash (mixed : BitVec 64) (len : ℕ) : BitVec 64 :=
  let mixed := mixed ^^^ ((BitVec.ofNat 64 len + 1#64) * 1927868237#64)
  let mixed := mixed ^^^ ((mixed >>> 11) ^^^ (mixed >>> 25))
  let hash := mixed * 69069#64 + 907133923#64
  if hash = BitVec.ofInt 64 (-1) then 590923713#64 else hash

mutual

def hashObject (hooks : Hooks) : Value → Except String (BitVec 64)
  | .smallInt value => .ok (normalizeHash (hashBigint value))
  | .bool _ value => .ok (normalizeHash (hashBigint (if value then 1 else 0)))
  | .int _ value => .ok (normalizeHash (hashBigint value))
  | .float _ value => .ok (normalizeHash (hashF64 value))
  | .complex _ real imag => .ok (normalizeHash (hashComplex real imag))
  | .tupleSubclass addr cls items =>
    match cls.hashHook with
    | some hook => (dispatchUserHash hooks (.tupleSubclass addr cls items) hook).map normalizeHash
    | none => (structuralTupleHash hooks items.length items 0x345678#64 1000003#64).map normalizeHash
  | .str _ utf8 =>
    match fromUtf8 utf8 with
    | some text => .ok (normalizeHash (strHash text utf8))
    | none => .ok (normalizeHash (bytesHash utf8))
  | .bytes _ data => .ok (normalizeHash (bytesHash data))
  | .none _ => .ok (normalizeHash 0x3456789a#64)
  | .frozenset _ entries =>
    (mixElementHashes hooks entries 0#64).map fun mixed ↦
      normalizeHash (finishFrozensetHash mixed entries.length)
  | .tuple _ items =>
    (structuralTupleHash hooks items.length items 0x345678#64 1000003#64).map normalizeHash

/-- The loop of `structural_tuple_hash` over the rest of `len` items, with its two accumulators. -/
def structuralTupleHash (hooks : Hooks) (len : ℕ) :
    List Value → BitVec 64 → BitVec 64 → Except String (BitVec 64)
  | [], hash, _ => .ok (hash + 97531#64)
  | item :: rest, hash, mult =>
    match hashObject hooks item with
    | .error message => .error message
    | .ok itemHash =>
      structuralTupleHash hooks len rest ((hash ^^^ itemHash) * mult)
        (mult + (82520#64 + 2#64 * BitVec.ofNat 64 len))

/-- The loop of `frozenset_hash_value` over the entries. -/
def mixElementHashes (hooks : Hooks) : List Value → BitVec 64 → Except String (BitVec 64)
  | [], mixed => .ok mixed
  | item :: rest, mixed =>
    match hashObject hooks item with
    | .error message => .error (setElementError item message)
    | .ok itemHash => mixElementHashes hooks rest (mixed ^^^ shuffleBits itemHash)

end

def hashSetElement (hooks : Hooks) (item : Value) : Except String (BitVec 64) :=
  (hashObject hooks item).mapError (setElementError item)

def insertUniqueEntries (hooks : Hooks) (target : List Value) : List Value → Except String (List Value)
  | [] => .ok target
  | item :: rest =>
    match hashSetElement hooks item with
    | .error message => .error message
    | .ok _ =>
      match findElementIndex hooks target item 0 with
      | .error message => .error message
      | .ok (some _) => insertUniqueEntries hooks target rest
      | .ok none => insertUniqueEntries hooks (target ++ [item]) rest

/-- The entry vector of a frozenset built from `items`. -/
def uniqueEntries (hooks : Hooks) (items : List Value) : Except String (List Value) :=
  insertUniqueEntries hooks [] items

end Pon.Hash
