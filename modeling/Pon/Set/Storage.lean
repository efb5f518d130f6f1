import Pon.Dict.Storage

/-!
# Set and frozenset storage

A set is an entry vector in insertion order together with a table of optional entry indices that is
searched by linear probing, sized and addressed as the table of a dict. Neither layout stores the
hash of an element: a probe hashes the candidates again. The comparison operators and the operators
that combine two sets do not probe but scan the entry vectors. Objects live in a heap and are
referred to by their position; a position outside of it is an object that is no set.

Hashing and comparing elements is the business of the object protocol and enters as `ElementOps`.
-/

namespace Pon.Set

open Dict (Fault bucketCapacity bucketIndex nextBucket)

/-- The object protocol that sets use on their elements. -/
structure ElementOps (K : Type*) where
  hashObject : K → Except String (BitVec 64)
  typeName : K → Option String
  objectEqual : K → K → Except String Bool

structure PySet (K : Type*) where
  entries : List K
  buckets : List (Option ℕ)
deriving DecidableEq, Repr

structure PyFrozenSet (K : Type*) where
  entries : List K
  buckets : List (Option ℕ)
deriving DecidableEq, Repr

inductive SetObject (K : Type*)
  | set (storage : PySet K)
  | frozenset (storage : PyFrozenSet K)
deriving DecidableEq, Repr

variable {K : Type*}

/-! ## Elements -/

/-- A NULL item cannot be hashed; a refused type is reported as a set element. -/
def hashSetElement (ops : ElementOps K) : Option K → Except Fault (BitVec 64)
  | none => .error (.error "cannot hash NULL object")
  | some item =>
    match ops.hashObject item with
    | .ok hash => .ok hash
    | .error message =>
      if message.startsWith "unhashable type" then
        let name := (ops.typeName item).getD "object"
        .error (.error ("cannot use '" ++ name ++ "' as a set element (" ++ message ++ ")"))
      else
        .error (.error message)

def objectEqual (ops : ElementOps K) (left right : K) : Except Fault Bool :=
  (ops.objectEqual left right).mapError .error

/-- `hash_set_element(entry)? == hash && object_equal(entry, item)?`. -/
def candidateMatches (ops : ElementOps K) (entry item : K) (hash : BitVec 64) :
    Except Fault Bool :=
  match hashSetElement ops (some entry) with
  | .error fault => .error fault
  | .ok entryHash => if entryHash = hash then objectEqual ops entry item else .ok false

/-! ## Linear scans -/

/-- The index of the first entry that is equal to `item`. -/
def findElementIndex (ops : ElementOps K) (item : K) : List K → Except Fault (Option ℕ)
  | [] => .ok none
  | entry :: rest =>
    match objectEqual ops entry item with
    | .error fault => .error fault
    | .ok true => .ok (some 0)
    | .ok false => (findElementIndex ops item rest).map (Option.map (· + 1))

def entriesSubset (ops : ElementOps K) (right : List K) : List K → Except Fault Bool
  | [] => .ok true
  | item :: left =>
    match findElementIndex ops item right with
    | .error fault => .error fault
    | .ok none => .ok false
    | .ok (some _) => entriesSubset ops right left

def insertUniqueEntries (ops : ElementOps K) (target : List K) :
    List (Option K) → Except Fault (List K)
  | [] => .ok target
  | item :: others =>
    match hashSetElement ops item, item with
    | .error fault, _ => .error fault
    | .ok _, none => .ok target
    | .ok _, some item =>
      match findElementIndex ops item target with
      | .error fault => .error fault
      | .ok none => insertUniqueEntries ops (target ++ [item]) others
      | .ok (some _) => insertUniqueEntries ops target others

def uniqueEntries (ops : ElementOps K) (items : List (Option K)) : Except Fault (List K) :=
  insertUniqueEntries ops [] items

/-- The items of `left` whose presence in `right` is `present`, in order. -/
def entriesWhere (ops : ElementOps K) (right : List K) (present : Bool) :
    List K → Except Fault (List K)
  | [] => .ok []
  | item :: left =>
    match findElementIndex ops item right with
    | .error fault => .error fault
    | .ok found =>
      (entriesWhere ops right present left).map fun kept ↦
        if found.isSome = present then item :: kept else kept

/-! ## Bucket table -/

/-- The first empty bucket from `bucket` on, within the given number of rounds. -/
def probeVacant (buckets : List (Option ℕ)) : ℕ → ℕ → Except Fault (Option ℕ)
  | 0, _ => .ok none
  | rounds + 1, bucket =>
    match buckets[bucket]? with
    | none => .error .panic
    | some none => .ok (some bucket)
    | some (some _) => probeVacant buckets rounds (nextBucket buckets.length bucket)

def insertBucketHashed (buckets : List (Option ℕ)) (hash : BitVec 64) (index : ℕ) :
    Except Fault (List (Option ℕ)) :=
  if buckets.isEmpty then
    .error (.error "set bucket table is empty")
  else
    match probeVacant buckets buckets.length (bucketIndex hash buckets.length) with
    | .error fault => .error fault
    | .ok none => .error (.error "set bucket table is full")
    | .ok (some bucket) => .ok (buckets.set bucket (some index))

def insertBucket (ops : ElementOps K) (entries : List K) (buckets : List (Option ℕ))
    (index : ℕ) : Except Fault (List (Option ℕ)) :=
  match entries[index]? with
  | none => .error .panic
  | some entry =>
    match hashSetElement ops (some entry) with
    | .error fault => .error fault
    | .ok hash => insertBucketHashed buckets hash index

def rebuildSetBucketsWithCapacity (ops : ElementOps K) (set : PySet K) (capacity : ℕ) :
    Except Fault (PySet K) :=
  let rebuilt := (List.range set.entries.length).foldlM (insertBucket ops set.entries)
    (List.replicate capacity none)
  rebuilt.map fun buckets ↦ { set with buckets }

def rebuildSetBuckets (ops : ElementOps K) (set : PySet K) : Except Fault (PySet K) :=
  rebuildSetBucketsWithCapacity ops set (bucketCapacity set.entries.length)

def ensureSetBuckets (ops : ElementOps K) (set : PySet K) : Except Fault (PySet K) :=
  if set.buckets.length < bucketCapacity set.entries.length then
    rebuildSetBuckets ops set
  else
    .ok set

def ensureSetInsertCapacity (ops : ElementOps K) (set : PySet K) : Except Fault (PySet K) :=
  let occupiedAfterInsert := set.entries.length + 1
  if occupiedAfterInsert * 3 ≥ set.buckets.length * 2 then
    rebuildSetBucketsWithCapacity ops set (bucketCapacity occupiedAfterInsert)
  else
    .ok set

/-- One round of `build_buckets`; an index for which no bucket is free is left out. -/
def placeIndex (ops : ElementOps K) (entries : List K) (buckets : List (Option ℕ)) (index : ℕ) :
    Except Fault (List (Option ℕ)) :=
  match entries[index]? with
  | none => .error .panic
  | some entry =>
    match hashSetElement ops (some entry) with
    | .error fault => .error fault
    | .ok hash =>
      match probeVacant buckets buckets.length (bucketIndex hash buckets.length) with
      | .error fault => .error fault
      | .ok none => .ok buckets
      | .ok (some bucket) => .ok (buckets.set bucket (some index))

def buildBuckets (ops : ElementOps K) (entries : List K) : Except Fault (List (Option ℕ)) :=
  (List.range entries.length).foldlM (placeIndex ops entries)
    (List.replicate (bucketCapacity entries.length) none)

/-- The table of a frozenset is built by its first probe. -/
def ensureFrozensetBuckets (ops : ElementOps K) (set : PyFrozenSet K) :
    Except Fault (PyFrozenSet K) :=
  if !set.buckets.isEmpty || set.entries.isEmpty then
    .ok set
  else
    (buildBuckets ops set.entries).map fun buckets ↦ { set with buckets }

/-! ## Lookup -/

/-- The storage shape that a comparison must leave alone. A pure comparison moves neither vector, so
their addresses are left out. -/
def setWitness (set : PySet K) : ℕ × ℕ :=
  (set.entries.length, set.buckets.length)

/-- The bucket chain from `bucket` up to the first empty bucket. -/
def collectCandidates (set : PySet K) : ℕ → ℕ → Except Fault (List (ℕ × K))
  | 0, _ => .ok []
  | rounds + 1, bucket =>
    match set.buckets[bucket]? with
    | none => .error .panic
    | some none => .ok []
    | some (some index) =>
      match set.entries[index]? with
      | none => .error .panic
      | some entry =>
        (collectCandidates set rounds (nextBucket set.buckets.length bucket)).map ((index, entry) :: ·)

/-- The deferred pass of `find_set_index`; `none` restarts the search. -/
def verifyCandidates [DecidableEq K] (ops : ElementOps K) (set : PySet K) (witness : ℕ × ℕ)
    (item : K) (hash : BitVec 64) : List (ℕ × K) → Except Fault (Option (Option ℕ))
  | [] => .ok (some none)
  | (index, entry) :: rest =>
    if entry = item then
      .ok (some (some index))
    else
      match candidateMatches ops entry item hash with
      | .error fault => .error fault
      | .ok true =>
        if set.entries[index]? = some entry then
          .ok (some (some index))
        else
          .ok none
      | .ok false =>
        if setWitness set ≠ witness then
          .ok none
        else
          verifyCandidates ops set witness item hash rest

/-- `find_set_index`, with a bound on the number of restarts. -/
def findSetIndex [DecidableEq K] (ops : ElementOps K) (set : PySet K) (item : K)
    (hash : BitVec 64) : ℕ → Except Fault (Option ℕ)
  | 0 => .error .diverged
  | restarts + 1 =>
    if set.buckets.isEmpty then
      .ok none
    else
      match collectCandidates set set.buckets.length (bucketIndex hash set.buckets.length) with
      | .error fault => .error fault
      | .ok candidates =>
        if candidates.isEmpty then
          .ok none
        else
          match verifyCandidates ops set (setWitness set) item hash candidates with
          | .error fault => .error fault
          | .ok (some found) => .ok found
          | .ok none => findSetIndex ops set item hash restarts

/-- The probing loop of `frozenset_contains`. -/
def frozensetProbe (ops : ElementOps K) (set : PyFrozenSet K) (item : K) (hash : BitVec 64) :
    ℕ → ℕ → Except Fault Bool
  | 0, _ => .ok false
  | rounds + 1, bucket =>
    match set.buckets[bucket]? with
    | none => .error .panic
    | some none => .ok false
    | some (some index) =>
      match set.entries[index]? with
      | none => .error .panic
      | some entry =>
        match candidateMatches ops entry item hash with
        | .error fault => .error fault
        | .ok true => .ok true
        | .ok false =>
          frozensetProbe ops set item hash rounds (nextBucket set.buckets.length bucket)

def frozensetContains (ops : ElementOps K) (set : PyFrozenSet K) (item : K) :
    Except Fault Bool × PyFrozenSet K :=
  match hashSetElement ops (some item) with
  | .error fault => (.error fault, set)
  | .ok hash =>
    match ensureFrozensetBuckets ops set with
    | .error fault => (.error fault, set)
    | .ok set =>
      if set.buckets.isEmpty then
        (.ok false, set)
      else
        (frozensetProbe ops set item hash set.buckets.length (bucketIndex hash set.buckets.length), set)

/-! ## Operations on one storage

An operation returns its result and the storage it leaves behind, also when it fails. -/

section Operations

variable [DecidableEq K] (ops : ElementOps K) (restarts : ℕ)

/-- `set_add` from the borrow on. -/
def addHashed (item : K) (hash : BitVec 64) (set : PySet K) : Except Fault Unit × PySet K :=
  match ensureSetBuckets ops set with
  | .error fault => (.error fault, set)
  | .ok set =>
    match findSetIndex ops set item hash restarts with
    | .error fault => (.error fault, set)
    | .ok (some _) => (.ok (), set)
    | .ok none =>
      match ensureSetInsertCapacity ops set with
      | .error fault => (.error fault, set)
      | .ok set =>
        let entries := set.entries ++ [item]
        match insertBucketHashed set.buckets hash set.entries.length with
        | .error fault => (.error fault, { set with entries })
        | .ok buckets => (.ok (), { entries, buckets })

/-- `set_remove` from the borrow on. -/
def removeHashed (item : K) (hash : BitVec 64) (set : PySet K) : Except Fault Bool × PySet K :=
  match ensureSetBuckets ops set with
  | .error fault => (.error fault, set)
  | .ok set =>
    match findSetIndex ops set item hash restarts with
    | .error fault => (.error fault, set)
    | .ok none => (.ok false, set)
    | .ok (some index) =>
      if index < set.entries.length then
        let removed := { set with entries := set.entries.eraseIdx index }
        match rebuildSetBuckets ops removed with
        | .error fault => (.error fault, removed)
        | .ok set => (.ok true, set)
      else
        (.error .panic, set)

/-- The mutable branch of `set_contains`. -/
def containsHashed (item : K) (hash : BitVec 64) (set : PySet K) : Except Fault Bool × PySet K :=
  match ensureSetBuckets ops set with
  | .error fault => (.error fault, set)
  | .ok set => ((findSetIndex ops set item hash restarts).map Option.isSome, set)

end Operations

/-- `set_pop` from the borrow on. -/
def popStorage (ops : ElementOps K) (set : PySet K) : Except Fault (Option K) × PySet K :=
  match set.entries with
  | [] => (.ok none, set)
  | value :: rest =>
    let popped := { set with entries := rest }
    match rebuildSetBuckets ops popped with
    | .error fault => (.error fault, popped)
    | .ok set => (.ok (some value), set)

/-! ## Operations on the heap -/

def SetObject.entries : SetObject K → List K
  | .set storage => storage.entries
  | .frozenset storage => storage.entries

def SetObject.buckets : SetObject K → List (Option ℕ)
  | .set storage => storage.buckets
  | .frozenset storage => storage.buckets

def entriesSnapshot (heap : List (SetObject K)) (object : ℕ) : Except Fault (List K) :=
  match heap[object]? with
  | some set => .ok set.entries
  | none => .error (.error "expected set or frozenset object")

/-- Run `f` on the storage that `set_mut` borrows. -/
def onSet {α : Type*} (heap : List (SetObject K)) (set : ℕ)
    (f : PySet K → Except Fault α × PySet K) : Except Fault α × List (SetObject K) :=
  match heap[set]? with
  | some (.set storage) =>
    let (result, storage) := f storage
    (result, heap.set set (.set storage))
  | _ => (.error (.error "expected set object"), heap)

section Heap

variable [DecidableEq K] (ops : ElementOps K) (restarts : ℕ) (heap : List (SetObject K))

def setAdd (set : ℕ) (item : Option K) : Except Fault Unit × List (SetObject K) :=
  match item with
  | none => (.error (.error "set item is NULL"), heap)
  | some item =>
    match hashSetElement ops (some item) with
    | .error fault => (.error fault, heap)
    | .ok hash => onSet heap set (addHashed ops restarts item hash)

def setRemove (set : ℕ) (item : Option K) : Except Fault Bool × List (SetObject K) :=
  match item with
  | none => (.error (.error "set item is NULL"), heap)
  | some item =>
    match hashSetElement ops (some item) with
    | .error fault => (.error fault, heap)
    | .ok hash => onSet heap set (removeHashed ops restarts item hash)

def setDiscard (set : ℕ) (item : Option K) : Except Fault Unit × List (SetObject K) :=
  let (result, heap) := setRemove ops restarts heap set item
  (result.map fun _ ↦ (), heap)

def setContains (set : ℕ) (item : Option K) : Except Fault Bool × List (SetObject K) :=
  match item with
  | none => (.error (.error "set item is NULL"), heap)
  | some item =>
    match hashSetElement ops (some item) with
    | .error fault => (.error fault, heap)
    | .ok hash =>
      match heap[set]? with
      | some (.set _) => onSet heap set (containsHashed ops restarts item hash)
      | some (.frozenset storage) =>
        let (result, storage) := frozensetContains ops storage item
        (result, heap.set set (.frozenset storage))
      | none => (.error (.error "expected set or frozenset object"), heap)

end Heap

section Scans

variable (ops : ElementOps K) (heap : List (SetObject K))

def setPop (set : ℕ) : Except Fault (Option K) × List (SetObject K) :=
  onSet heap set (popStorage ops)

def setClear (set : ℕ) : Except Fault Unit × List (SetObject K) :=
  onSet heap set fun _ ↦ (.ok (), { entries := [], buckets := [] })

/-- Take the snapshots of two sets, the left one first. -/
def withSnapshots {α : Type*} (left right : ℕ) (f : List K → List K → Except Fault α) :
    Except Fault α :=
  match entriesSnapshot heap left with
  | .error fault => .error fault
  | .ok leftEntries =>
    match entriesSnapshot heap right with
    | .error fault => .error fault
    | .ok rightEntries => f leftEntries rightEntries

/-- The scan of `set_equal` is the one of `entries_subset`. -/
def setEqual (left right : ℕ) : Except Fault Bool :=
  withSnapshots heap left right fun leftEntries rightEntries ↦
    if leftEntries.length ≠ rightEntries.length then
      .ok false
    else
      entriesSubset ops rightEntries leftEntries

/-! ## Comparison operators -/

def richLt : ℤ := 0
def richLe : ℤ := 1
def richEq : ℤ := 2
def richNe : ℤ := 3
def richGt : ℤ := 4
def richGe : ℤ := 5

/-- `set_richcmp_bool`; an operation that is no byte is refused as an unknown one. -/
def setRichcmpBool (left right : ℕ) (op : ℤ) : Except Fault Bool :=
  withSnapshots heap left right fun leftEntries rightEntries ↦
    if op = richEq ∨ op = richNe then
      let equal :=
        if leftEntries.length = rightEntries.length then
          entriesSubset ops rightEntries leftEntries
        else
          .ok false
      equal.map fun equal ↦ if op = richEq then equal else !equal
    else if op = richLe then
      entriesSubset ops rightEntries leftEntries
    else if op = richGe then
      entriesSubset ops leftEntries rightEntries
    else if op = richLt then
      if leftEntries.length < rightEntries.length then
        entriesSubset ops rightEntries leftEntries
      else
        .ok false
    else if op = richGt then
      if rightEntries.length < leftEntries.length then
        entriesSubset ops leftEntries rightEntries
      else
        .ok false
    else
      .error (.error "unknown rich comparison operation")

/-- The shared `tp_richcmp` slot; `none` is `NotImplemented`. -/
def setRichcmpSlot (left right : ℕ) (op : ℤ) : Except Fault (Option Bool) :=
  if heap[left]?.isNone || heap[right]?.isNone then
    .ok none
  else
    (setRichcmpBool ops heap left right op).map some

end Scans

/-! ## New sets -/

/-- `collect_prehashed_element`: the first of several equal items is kept. -/
def collectPrehashedElement (ops : ElementOps K) (item : Option K)
    (entries : List (K × BitVec 64)) : Except Fault (List (K × BitVec 64)) :=
  match item with
  | none => .error (.error "set item is NULL")
  | some item =>
    match hashSetElement ops (some item) with
    | .error fault => .error fault
    | .ok hash => scan item hash entries
where
  scan (item : K) (hash : BitVec 64) :
      List (K × BitVec 64) → Except Fault (List (K × BitVec 64))
    | [] => .ok (entries ++ [(item, hash)])
    | (entry, entryHash) :: rest =>
      if entryHash = hash then
        match objectEqual ops entry item with
        | .error fault => .error fault
        | .ok true => .ok entries
        | .ok false => scan item hash rest
      else
        scan item hash rest

/-- `set_fill_prehashed` on a set without entries. -/
def setFillPrehashed (elements : List (K × BitVec 64)) : Except Fault (PySet K) :=
  let entries := elements.map Prod.fst
  let place (buckets : List (Option ℕ)) (index : ℕ) : Except Fault (List (Option ℕ)) :=
    match elements[index]? with
    | none => .error .panic
    | some (_, hash) => insertBucketHashed buckets hash index
  let filled := (List.range elements.length).foldlM place
    (List.replicate (bucketCapacity entries.length) none)
  filled.map fun buckets ↦ { entries, buckets }

/-- The position of the new object. -/
def alloc (heap : List (SetObject K)) (built : Except Fault (SetObject K)) :
    Except Fault ℕ × List (SetObject K) :=
  match built with
  | .error fault => (.error fault, heap)
  | .ok object => (.ok heap.length, heap ++ [object])

def ponBuildSet (ops : ElementOps K) (heap : List (SetObject K)) (items : List (Option K)) :
    Except Fault ℕ × List (SetObject K) :=
  alloc heap do
    let elements ← items.foldlM (fun elements item ↦ collectPrehashedElement ops item elements) []
    let storage ← setFillPrehashed elements
    return .set storage

def ponBuildFrozenset (ops : ElementOps K) (heap : List (SetObject K))
    (items : List (Option K)) : Except Fault ℕ × List (SetObject K) :=
  alloc heap do
    let entries ← uniqueEntries ops items
    return .frozenset { entries, buckets := [] }

/-- The operators that combine two sets. -/
inductive BinaryOp
  | union
  | intersection
  | difference
  | symmetricDifference
deriving DecidableEq, Repr

def binaryEntries (ops : ElementOps K) (op : BinaryOp) (left right : List K) :
    Except Fault (List K) :=
  match op with
  | .union => insertUniqueEntries ops left (right.map some)
  | .intersection => entriesWhere ops right true left
  | .difference => entriesWhere ops right false left
  | .symmetricDifference => do
    let right ← uniqueEntries ops (right.map some)
    let fromLeft ← entriesWhere ops right false left
    let fromRight ← entriesWhere ops left false right
    return fromLeft ++ fromRight

/-- A result has the flavor of the left operand and no bucket table yet. -/
def buildSetFromEntries (left : SetObject K) (entries : List K) : SetObject K :=
  match left with
  | .set _ => .set { entries, buckets := [] }
  | .frozenset _ => .frozenset { entries, buckets := [] }

/-- `pon_set_union` and its siblings on two sets; the other operands they take are no sets. -/
def ponSetBinary (ops : ElementOps K) (heap : List (SetObject K)) (op : BinaryOp)
    (left right : ℕ) : Except Fault ℕ × List (SetObject K) :=
  alloc heap <| withSnapshots heap left right fun leftEntries rightEntries ↦ do
    let entries ← binaryEntries ops op leftEntries rightEntries
    match heap[left]? with
    | some object => return buildSetFromEntries object entries
    | none => .error .panic

/-! ## Runs -/

/-- One call, with its arguments. -/
inductive Call (K : Type*)
  | buildSet (items : List (Option K))
  | buildFrozenset (items : List (Option K))
  | binary (op : BinaryOp) (left right : ℕ)
  | add (set : ℕ) (item : Option K)
  | remove (set : ℕ) (item : Option K)
  | discard (set : ℕ) (item : Option K)
  | pop (set : ℕ)
  | clear (set : ℕ)
  | contains (set : ℕ) (item : Option K)
  | equal (left right : ℕ)
  | richcmp (left right : ℕ) (op : ℤ)

/-- What a call returns. -/
inductive Reply (K : Type*)
  | built (result : Except Fault ℕ)
  | updated (result : Except Fault Unit)
  | answered (result : Except Fault Bool)
  | popped (result : Except Fault (Option K))
  | compared (result : Except Fault (Option Bool))

def call [DecidableEq K] (ops : ElementOps K) (restarts : ℕ) (heap : List (SetObject K)) :
    Call K → Reply K × List (SetObject K)
  | .buildSet items => (ponBuildSet ops heap items).map .built id
  | .buildFrozenset items => (ponBuildFrozenset ops heap items).map .built id
  | .binary op left right => (ponSetBinary ops heap op left right).map .built id
  | .add set item => (setAdd ops restarts heap set item).map .updated id
  | .remove set item => (setRemove ops restarts heap set item).map .answered id
  | .discard set item => (setDiscard ops restarts heap set item).map .updated id
  | .pop set => (setPop ops heap set).map .popped id
  | .clear set => (setClear heap set).map .updated id
  | .contains set item => (setContains ops restarts heap set item).map .answered id
  | .equal left right => (.answered (setEqual ops heap left right), heap)
  | .richcmp left right op => (.compared (setRichcmpSlot ops heap left right op), heap)

/-- The replies of a sequence of calls and the heap after it. -/
def run [DecidableEq K] (ops : ElementOps K) (restarts : ℕ) (heap : List (SetObject K)) :
    List (Call K) → List (Reply K) × List (SetObject K)
  | [] => ([], heap)
  | c :: rest =>
    let (reply, heap) := call ops restarts heap c
    let (replies, heap) := run ops restarts heap rest
    (reply :: replies, heap)

end Pon.Set
