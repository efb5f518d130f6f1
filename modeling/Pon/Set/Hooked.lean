import Pon.Lib.Stateful
import Pon.Set.Storage

/-!
# Sets under hooks that may fail at any call

Hashing and comparing elements calls hooks with a state of their own, so an element that was hashed
when it was added may refuse its hash later. The hooks do not touch the set. An operation writes the
set in place, in the order of the source, and what it has written stays when a later call fails.
-/

namespace Pon.Set.Hooked

open Dict (Fault bucketCapacity bucketIndex nextBucket)
open Stateful Comp

/-- The object protocol as calls on a state. -/
structure Hooks (σ K : Type) where
  hashObject : K → σ → Except String (BitVec 64) × σ
  typeName : K → Option String
  objectEqual : K → K → σ → Except String Bool × σ

/-- The state of the hooks and the object that is operated on, if it is a set or a frozenset. -/
structure World (σ K : Type) where
  hooks : σ
  object : Option (SetObject K)

abbrev SetM (σ K α : Type) := Comp (World σ K) Fault α

variable {σ K : Type}

def setMut : SetM σ K (PySet K) := fun w ↦
  match w.object with
  | some (.set set) => (.ok set, w)
  | _ => (.error (.error "expected set object"), w)

def frozensetRef : SetM σ K (PyFrozenSet K) := fun w ↦
  match w.object with
  | some (.frozenset set) => (.ok set, w)
  | _ => (.error (.error "expected frozenset object"), w)

/-- Write the borrowed object. -/
def store (object : SetObject K) : SetM σ K Unit := fun w ↦
  (.ok (), { w with object := some object })

/-- What `hash_set_element` makes of the hook's answer. -/
def wrapHash (hooks : Hooks σ K) (item : K) : Except String (BitVec 64) → Except Fault (BitVec 64)
  | .ok hash => .ok hash
  | .error message =>
    if message.startsWith "unhashable type" then
      let name := (hooks.typeName item).getD "object"
      .error (.error ("cannot use '" ++ name ++ "' as a set element (" ++ message ++ ")"))
    else
      .error (.error message)

def hashSetElement (hooks : Hooks σ K) (item : K) : SetM σ K (BitVec 64) := fun w ↦
  let (answer, state) := hooks.hashObject item w.hooks
  (wrapHash hooks item answer, { w with hooks := state })

def objectEqual (hooks : Hooks σ K) (left right : K) : SetM σ K Bool := fun w ↦
  let (answer, state) := hooks.objectEqual left right w.hooks
  (answer.mapError .error, { w with hooks := state })

/-- `hash_set_element(entry)? == hash && object_equal(entry, item)?`. -/
def candidateMatches (hooks : Hooks σ K) (entry item : K) (hash : BitVec 64) : SetM σ K Bool := do
  let entryHash ← hashSetElement hooks entry
  if entryHash = hash then objectEqual hooks entry item else pure false

def insertBucket (hooks : Hooks σ K) (entries : List K) (buckets : List (Option ℕ)) (index : ℕ) :
    SetM σ K (List (Option ℕ)) :=
  match entries[index]? with
  | none => fail .panic
  | some entry => do
    let hash ← hashSetElement hooks entry
    lift (insertBucketHashed buckets hash index)

/-- The new table, which nothing refers to yet. -/
def fillBuckets (hooks : Hooks σ K) (entries : List K) (capacity : ℕ) :
    SetM σ K (List (Option ℕ)) :=
  (List.range entries.length).foldlM (insertBucket hooks entries) (List.replicate capacity none)

def rebuildSetBucketsWithCapacity (hooks : Hooks σ K) (capacity : ℕ) : SetM σ K Unit := do
  let set ← setMut
  let buckets ← fillBuckets hooks set.entries capacity
  store (.set { set with buckets })

def rebuildSetBuckets (hooks : Hooks σ K) : SetM σ K Unit := do
  let set ← setMut
  rebuildSetBucketsWithCapacity hooks (bucketCapacity set.entries.length)

def ensureSetBuckets (hooks : Hooks σ K) : SetM σ K Unit := do
  let set ← setMut
  if set.buckets.length < bucketCapacity set.entries.length then rebuildSetBuckets hooks
  else pure ()

def ensureSetInsertCapacity (hooks : Hooks σ K) : SetM σ K Unit := do
  let set ← setMut
  let occupiedAfterInsert := set.entries.length + 1
  if occupiedAfterInsert * 3 ≥ set.buckets.length * 2 then
    rebuildSetBucketsWithCapacity hooks (bucketCapacity occupiedAfterInsert)
  else pure ()

/-- One round of `build_buckets`; an index for which no bucket is free is left out. -/
def placeIndex (hooks : Hooks σ K) (entries : List K) (buckets : List (Option ℕ)) (index : ℕ) :
    SetM σ K (List (Option ℕ)) :=
  match entries[index]? with
  | none => fail .panic
  | some entry => do
    let hash ← hashSetElement hooks entry
    match probeVacant buckets buckets.length (bucketIndex hash buckets.length) with
    | .error fault => fail fault
    | .ok none => pure buckets
    | .ok (some bucket) => pure (buckets.set bucket (some index))

def buildBuckets (hooks : Hooks σ K) (entries : List K) : SetM σ K (List (Option ℕ)) :=
  (List.range entries.length).foldlM (placeIndex hooks entries)
    (List.replicate (bucketCapacity entries.length) none)

def ensureFrozensetBuckets (hooks : Hooks σ K) : SetM σ K Unit := do
  let set ← frozensetRef
  if !set.buckets.isEmpty || set.entries.isEmpty then pure ()
  else do
    let buckets ← buildBuckets hooks set.entries
    store (.frozenset { set with buckets })

section Lookup

variable [DecidableEq K] (hooks : Hooks σ K)

/-- The deferred pass of `find_set_index`; `none` restarts the search. -/
def verifyCandidates (witness : ℕ × ℕ) (item : K) (hash : BitVec 64) :
    List (ℕ × K) → SetM σ K (Option (Option ℕ))
  | [] => pure (some none)
  | (index, entry) :: rest =>
    if entry = item then pure (some (some index))
    else do
      let same ← candidateMatches hooks entry item hash
      let storage ← setMut
      if same then
        if storage.entries[index]? = some entry then pure (some (some index)) else pure none
      else if setWitness storage ≠ witness then pure none
      else verifyCandidates witness item hash rest

/-- `find_set_index`, with a bound on the number of restarts. -/
def findSetIndex (item : K) (hash : BitVec 64) : ℕ → SetM σ K (Option ℕ)
  | 0 => fail .diverged
  | restarts + 1 => do
    let storage ← setMut
    if storage.buckets.isEmpty then pure none
    else do
      let candidates ← lift (collectCandidates storage storage.buckets.length
        (bucketIndex hash storage.buckets.length))
      if candidates.isEmpty then pure none
      else do
        match ← verifyCandidates hooks (setWitness storage) item hash candidates with
        | some found => pure found
        | none => findSetIndex item hash restarts

/-- The search in a mutable set for an item that has been hashed. -/
def searchSet (restarts : ℕ) (item : K) (hash : BitVec 64) : SetM σ K (Option ℕ) := do
  ensureSetBuckets hooks
  findSetIndex hooks item hash restarts

end Lookup

/-- The probing loop of `frozenset_contains`. -/
def frozensetProbe (hooks : Hooks σ K) (set : PyFrozenSet K) (item : K) (hash : BitVec 64) :
    ℕ → ℕ → SetM σ K Bool
  | 0, _ => pure false
  | rounds + 1, bucket =>
    match set.buckets[bucket]? with
    | none => fail .panic
    | some none => pure false
    | some (some index) =>
      match set.entries[index]? with
      | none => fail .panic
      | some entry => do
        if ← candidateMatches hooks entry item hash then pure true
        else frozensetProbe hooks set item hash rounds (nextBucket set.buckets.length bucket)

def frozensetContains (hooks : Hooks σ K) (item : K) : SetM σ K Bool := do
  let hash ← hashSetElement hooks item
  ensureFrozensetBuckets hooks
  let set ← frozensetRef
  if set.buckets.isEmpty then pure false
  else frozensetProbe hooks set item hash set.buckets.length (bucketIndex hash set.buckets.length)

section Operations

variable [DecidableEq K] (hooks : Hooks σ K) (restarts : ℕ)

def setAdd : Option K → SetM σ K Unit
  | none => fail (.error "set item is NULL")
  | some item => do
    let hash ← hashSetElement hooks item
    match ← searchSet hooks restarts item hash with
    | some _ => pure ()
    | none => do
      ensureSetInsertCapacity hooks
      let storage ← setMut
      store (.set { storage with entries := storage.entries ++ [item] })
      let buckets ← lift (insertBucketHashed storage.buckets hash storage.entries.length)
      store (.set { entries := storage.entries ++ [item], buckets })

def setRemove : Option K → SetM σ K Bool
  | none => fail (.error "set item is NULL")
  | some item => do
    let hash ← hashSetElement hooks item
    match ← searchSet hooks restarts item hash with
    | none => pure false
    | some index => do
      let storage ← setMut
      if index < storage.entries.length then do
        store (.set { storage with entries := storage.entries.eraseIdx index })
        rebuildSetBuckets hooks
        pure true
      else fail .panic

def setPop : SetM σ K (Option K) := do
  let set ← setMut
  match set.entries with
  | [] => pure none
  | value :: rest => do
    store (.set { set with entries := rest })
    rebuildSetBuckets hooks
    pure (some value)

def setContains : Option K → SetM σ K Bool
  | none => fail (.error "set item is NULL")
  | some item => do
    let hash ← hashSetElement hooks item
    fun w ↦
      match w.object with
      | some (.set _) => (do
          let found ← searchSet hooks restarts item hash
          pure found.isSome : SetM σ K Bool) w
      | some (.frozenset _) => frozensetContains hooks item w
      | none => (.error (.error "expected set or frozenset object"), w)

end Operations

/-- The elements come with their hashes. -/
def setFillPrehashed (elements : List (K × BitVec 64)) : SetM σ K Unit := do
  let storage ← setMut
  let entries := storage.entries ++ elements.map Prod.fst
  store (.set { storage with entries })
  let buckets ← lift (elements.zipIdx.foldlM
    (fun buckets element ↦ insertBucketHashed buckets element.1.2 element.2)
    (List.replicate (bucketCapacity entries.length) none))
  store (.set { entries, buckets })

/-- An operation with its arguments. -/
inductive Operation (K : Type)
  | add (item : Option K)
  | remove (item : Option K)
  | pop
  | contains (item : Option K)
  | fillPrehashed (elements : List (K × BitVec 64))

/-- An operation without its result. -/
def operate [DecidableEq K] (hooks : Hooks σ K) (restarts : ℕ) : Operation K → SetM σ K Unit
  | .add item => setAdd hooks restarts item
  | .remove item => do
    let _ ← setRemove hooks restarts item
    pure ()
  | .pop => do
    let _ ← setPop hooks
    pure ()
  | .contains item => do
    let _ ← setContains hooks restarts item
    pure ()
  | .fillPrehashed elements => setFillPrehashed elements

end Pon.Set.Hooked
