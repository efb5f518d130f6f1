import Mathlib.Algebra.Group.Nat.Defs
import Mathlib.Data.Nat.Init
import Mathlib.Data.List.Basic

/-!
# Dict storage

A dict is an entry vector in insertion order together with a table of optional entry indices that
is searched by linear probing. Keys and values are object pointers; a NULL argument is `none`.
Hashing and comparing keys is the business of the object protocol and enters as `KeyOps`.

Lengths are natural numbers: an entry takes three words, so the entry count of a vector that fits
into the address space is too small for the saturating arithmetic on it to saturate.
-/

namespace Pon.Dict

/-- How an operation fails: with a message, by an out-of-bounds panic, or by never returning. -/
inductive Fault
  | error (message : String)
  | panic
  | diverged
deriving DecidableEq, Repr

/-- The object protocol that the dict uses on its keys. -/
structure KeyOps (K : Type*) where
  hashObject : K → Except String (BitVec 64)
  typeName : K → Option String
  /-- `object_equal_structural`; `none` defers the comparison to a Python-level `__eq__`. -/
  objectEqualStructural : K → K → Option (Except String Bool)
  dispatchUserEq : K → K → Except String Bool

structure DictEntry (K V : Type*) where
  key : K
  value : V
  hash : BitVec 64
deriving DecidableEq, Repr

structure PyDictStorage (K V : Type*) where
  entries : List (DictEntry K V)
  buckets : List (Option ℕ)
deriving DecidableEq, Repr

variable {K V : Type*}

/-- A new dict: both vectors have no elements, whatever capacity they are allocated with. -/
def initDict : PyDictStorage K V where
  entries := []
  buckets := []

/-- The smallest power of two that is at least `n`. -/
def nextPowerOfTwo (n : ℕ) : ℕ :=
  if n ≤ 1 then 1 else 2 ^ (Nat.log2 (n - 1) + 1)

def bucketCapacity (len : ℕ) : ℕ :=
  nextPowerOfTwo (max (len * 2) 8)

def bucketIndex (hash : BitVec 64) (bucketCount : ℕ) : ℕ :=
  hash.toNat &&& (bucketCount - 1)

/-- The bucket after `bucket` on a probe path. -/
def nextBucket (bucketCount bucket : ℕ) : ℕ :=
  (bucket + 1) &&& (bucketCount - 1)

/-- The probing loop of `insert_bucket`, with the number of rounds left. -/
def insertBucketLoop (buckets : List (Option ℕ)) (index : ℕ) :
    ℕ → ℕ → Except Fault (List (Option ℕ))
  | 0, _ => .error (.error "dict bucket table is full")
  | rounds + 1, bucket =>
    match buckets[bucket]? with
    | none => .error .panic
    | some none => .ok (buckets.set bucket (some index))
    | some (some _) => insertBucketLoop buckets index rounds (nextBucket buckets.length bucket)

def insertBucket (buckets : List (Option ℕ)) (entries : List (DictEntry K V)) (index : ℕ) :
    Except Fault (List (Option ℕ)) :=
  if buckets.isEmpty then
    .error (.error "dict bucket table is empty")
  else
    match entries[index]? with
    | none => .error .panic
    | some entry =>
      insertBucketLoop buckets index buckets.length (bucketIndex entry.hash buckets.length)

variable (dict : PyDictStorage K V)

def rebuildDictBucketsWithCapacity (capacity : ℕ) : Except Fault (PyDictStorage K V) :=
  let rebuilt := (List.range dict.entries.length).foldlM
    (fun buckets index ↦ insertBucket buckets dict.entries index) (List.replicate capacity none)
  rebuilt.map fun buckets ↦ { dict with buckets }

def rebuildDictBuckets : Except Fault (PyDictStorage K V) :=
  rebuildDictBucketsWithCapacity dict (bucketCapacity dict.entries.length)

def ensureDictBuckets : Except Fault (PyDictStorage K V) :=
  if dict.buckets.length < bucketCapacity dict.entries.length then
    rebuildDictBuckets dict
  else
    .ok dict

def ensureDictInsertCapacity : Except Fault (PyDictStorage K V) :=
  let occupiedAfterInsert := dict.entries.length + 1
  if occupiedAfterInsert * 3 ≥ dict.buckets.length * 2 then
    rebuildDictBucketsWithCapacity dict (bucketCapacity occupiedAfterInsert)
  else
    .ok dict

/-- The storage shape that a deferred comparison must leave alone. A pure comparison moves neither
vector, so their addresses are left out. -/
def storageWitness : ℕ × ℕ :=
  (dict.entries.length, dict.buckets.length)

/-- The collection pass of `find_entry_index`: a structural match if there is one, and the
candidates deferred on the way to it or to the end of the probe path. -/
def collectCandidates (keys : KeyOps K) (dict : PyDictStorage K V) (key : K) (hash : BitVec 64) :
    ℕ → ℕ → List (ℕ × K) → Except Fault (Option ℕ × List (ℕ × K))
  | 0, _, deferred => .ok (none, deferred)
  | rounds + 1, bucket, deferred =>
    match dict.buckets[bucket]? with
    | none => .error .panic
    | some none => .ok (none, deferred)
    | some (some index) =>
      match dict.entries[index]? with
      | none => .error .panic
      | some entry =>
        let next := nextBucket dict.buckets.length bucket
        if entry.hash = hash then
          match keys.objectEqualStructural entry.key key with
          | some (.ok true) => .ok (some index, deferred)
          | some (.ok false) => collectCandidates keys dict key hash rounds next deferred
          | some (.error message) => .error (.error message)
          | none =>
            collectCandidates keys dict key hash rounds next (deferred ++ [(index, entry.key)])
        else
          collectCandidates keys dict key hash rounds next deferred

/-- The deferred pass of `find_entry_index`; `none` restarts the search. -/
def dispatchDeferred [DecidableEq K] (keys : KeyOps K) (dict : PyDictStorage K V)
    (witness : ℕ × ℕ) (key : K) : List (ℕ × K) → Except Fault (Option (Option ℕ))
  | [] => .ok (some none)
  | (index, entryKey) :: rest =>
    match keys.dispatchUserEq entryKey key with
    | .error message => .error (.error message)
    | .ok true =>
      if dict.entries[index]?.map DictEntry.key = some entryKey then
        .ok (some (some index))
      else
        .ok none
    | .ok false =>
      if storageWitness dict ≠ witness then
        .ok none
      else
        dispatchDeferred keys dict witness key rest

/-- `find_entry_index`, with a bound on the number of restarts. -/
def findEntryIndex [DecidableEq K] (keys : KeyOps K) (dict : PyDictStorage K V) (key : K)
    (hash : BitVec 64) : ℕ → Except Fault (Option ℕ)
  | 0 => .error .diverged
  | restarts + 1 =>
    if dict.buckets.isEmpty then
      .ok none
    else
      match collectCandidates keys dict key hash dict.buckets.length
          (bucketIndex hash dict.buckets.length) [] with
      | .error fault => .error fault
      | .ok (some index, _) => .ok (some index)
      | .ok (none, deferred) =>
        if deferred.isEmpty then
          .ok none
        else
          match dispatchDeferred keys dict (storageWitness dict) key deferred with
          | .error fault => .error fault
          | .ok (some found) => .ok found
          | .ok none => findEntryIndex keys dict key hash restarts

def hashDictKey (keys : KeyOps K) (key : K) : Except Fault (BitVec 64) :=
  match keys.hashObject key with
  | .ok hash => .ok hash
  | .error message =>
    if message.startsWith "unhashable type" then
      let name := (keys.typeName key).getD "object"
      .error (.error ("cannot use '" ++ name ++ "' as a dict key (" ++ message ++ ")"))
    else
      .error (.error message)

/-! ## Operations

An operation returns its result and the storage it leaves behind, also when it fails. -/

section Operations

variable [DecidableEq K] (keys : KeyOps K) (restarts : ℕ)

def dictInsert (dict : PyDictStorage K V) (key : Option K) (value : Option V) :
    Except Fault Unit × PyDictStorage K V :=
  match key, value with
  | none, _ => (.error (.error "dict key is NULL"), dict)
  | some _, none => (.error (.error "dict value is NULL"), dict)
  | some key, some value =>
    match hashDictKey keys key with
    | .error fault => (.error fault, dict)
    | .ok hash =>
      match ensureDictBuckets dict with
      | .error fault => (.error fault, dict)
      | .ok dict =>
        match findEntryIndex keys dict key hash restarts with
        | .error fault => (.error fault, dict)
        | .ok (some index) =>
          match dict.entries[index]? with
          | none => (.error .panic, dict)
          | some entry =>
            (.ok (), { dict with entries := dict.entries.set index { entry with value } })
        | .ok none =>
          match ensureDictInsertCapacity dict with
          | .error fault => (.error fault, dict)
          | .ok dict =>
            let entries := dict.entries ++ [{ key, value, hash }]
            match insertBucket dict.buckets entries dict.entries.length with
            | .error fault => (.error fault, { dict with entries })
            | .ok buckets => (.ok (), { entries, buckets })

def dictGet (dict : PyDictStorage K V) (key : Option K) :
    Except Fault (Option V) × PyDictStorage K V :=
  match key with
  | none => (.error (.error "dict key is NULL"), dict)
  | some key =>
    match hashDictKey keys key with
    | .error fault => (.error fault, dict)
    | .ok hash =>
      match ensureDictBuckets dict with
      | .error fault => (.error fault, dict)
      | .ok dict =>
        match findEntryIndex keys dict key hash restarts with
        | .error fault => (.error fault, dict)
        | .ok (some index) =>
          match dict.entries[index]? with
          | none => (.error .panic, dict)
          | some entry => (.ok (some entry.value), dict)
        | .ok none => (.ok none, dict)

def dictRemove (dict : PyDictStorage K V) (key : Option K) :
    Except Fault (Option V) × PyDictStorage K V :=
  match key with
  | none => (.error (.error "dict key is NULL"), dict)
  | some key =>
    match hashDictKey keys key with
    | .error fault => (.error fault, dict)
    | .ok hash =>
      match ensureDictBuckets dict with
      | .error fault => (.error fault, dict)
      | .ok dict =>
        match findEntryIndex keys dict key hash restarts with
        | .error fault => (.error fault, dict)
        | .ok (some index) =>
          match dict.entries[index]? with
          | none => (.error .panic, dict)
          | some entry =>
            let removed := { dict with entries := dict.entries.eraseIdx index }
            match rebuildDictBuckets removed with
            | .error fault => (.error fault, removed)
            | .ok dict => (.ok (some entry.value), dict)
        | .ok none => (.ok none, dict)

end Operations

def dictPopLast : Except Fault (Option (K × V)) × PyDictStorage K V :=
  match dict.entries.getLast? with
  | none => (.ok none, dict)
  | some entry =>
    let popped := { dict with entries := dict.entries.dropLast }
    match rebuildDictBuckets popped with
    | .error fault => (.error fault, popped)
    | .ok dict => (.ok (some (entry.key, entry.value)), dict)

def dictClear : Except Fault (List K) × PyDictStorage K V :=
  (.ok (dict.entries.map DictEntry.key), { entries := [], buckets := [] })

/-- One call on a dict, with its arguments. -/
inductive Call (K V : Type*)
  | insert (key : Option K) (value : Option V)
  | get (key : Option K)
  | remove (key : Option K)
  | popLast
  | clear

/-- What a call returns. -/
inductive Reply (K V : Type*)
  | inserted (result : Except Fault Unit)
  | got (result : Except Fault (Option V))
  | removed (result : Except Fault (Option V))
  | popped (result : Except Fault (Option (K × V)))
  | cleared (result : Except Fault (List K))

def call [DecidableEq K] (keys : KeyOps K) (restarts : ℕ) (dict : PyDictStorage K V) :
    Call K V → Reply K V × PyDictStorage K V
  | .insert key value => (dictInsert keys restarts dict key value).map .inserted id
  | .get key => (dictGet keys restarts dict key).map .got id
  | .remove key => (dictRemove keys restarts dict key).map .removed id
  | .popLast => (dictPopLast dict).map .popped id
  | .clear => (dictClear dict).map .cleared id

/-- The replies of a sequence of calls and the storage after it. -/
def run [DecidableEq K] (keys : KeyOps K) (restarts : ℕ) (dict : PyDictStorage K V) :
    List (Call K V) → List (Reply K V) × PyDictStorage K V
  | [] => ([], dict)
  | c :: rest =>
    let (reply, dict) := call keys restarts dict c
    let (replies, dict) := run keys restarts dict rest
    (reply :: replies, dict)

end Pon.Dict
