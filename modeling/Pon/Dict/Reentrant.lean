import Pon.Dict.Storage
import Pon.Lib.Stateful

/-!
# Dict lookup under re-entrant equality

A comparison that is not decided structurally runs user code, which may operate on the dict that is
being searched. The search notices this by the lengths and the addresses of the two vectors, so a
storage comes with its addresses here. What the calls of `__eq__` do is given: the changes that each
of them makes to the dict, with the addresses that the allocator picks, and its answer.
-/

namespace Pon.Dict.Reentrant

open Stateful Comp

/-- A storage with the addresses of its vectors. -/
structure Placed (K V : Type) where
  dict : PyDictStorage K V
  entriesPtr : ℕ
  bucketsPtr : ℕ
deriving DecidableEq, Repr

variable {K V : Type} (storage : Placed K V)

def storageWitness : ℕ × ℕ × ℕ × ℕ :=
  (storage.dict.entries.length, storage.entriesPtr, storage.dict.buckets.length, storage.bucketsPtr)

/-- A new table at `bucketsPtr`. It is allocated while the old one still exists, so an allocator that
answers with the address of the old one does not exist. -/
def rebuildDictBucketsWithCapacity (capacity bucketsPtr : ℕ) : Except Fault (Placed K V) :=
  if bucketsPtr = storage.bucketsPtr then
    .error .diverged
  else
    match Dict.rebuildDictBucketsWithCapacity storage.dict capacity with
    | .error fault => .error fault
    | .ok dict => .ok { storage with dict, bucketsPtr }

def rebuildDictBuckets (bucketsPtr : ℕ) : Except Fault (Placed K V) :=
  rebuildDictBucketsWithCapacity storage (bucketCapacity storage.dict.entries.length) bucketsPtr

def ensureDictBuckets (bucketsPtr : ℕ) : Except Fault (Placed K V) :=
  if storage.dict.buckets.length < bucketCapacity storage.dict.entries.length then
    rebuildDictBuckets storage bucketsPtr
  else
    .ok storage

def ensureDictInsertCapacity (bucketsPtr : ℕ) : Except Fault (Placed K V) :=
  let occupiedAfterInsert := storage.dict.entries.length + 1
  if occupiedAfterInsert * 3 ≥ storage.dict.buckets.length * 2 then
    rebuildDictBucketsWithCapacity storage (bucketCapacity occupiedAfterInsert) bucketsPtr
  else
    .ok storage

/-- `storage.entries[index].value = value`. -/
def overwriteEntry (index : ℕ) (value : V) : Except Fault (Placed K V) :=
  match storage.dict.entries[index]? with
  | none => .error .panic
  | some entry =>
    let entries := storage.dict.entries.set index { entry with value }
    .ok { storage with dict := { storage.dict with entries } }

/-- The end of `dict_insert` for a new key. The push leaves the entry vector at `entriesPtr`, which is
another address if the vector had to grow. -/
def appendEntry (entry : DictEntry K V) (bucketsPtr entriesPtr : ℕ) : Except Fault (Placed K V) :=
  match ensureDictInsertCapacity storage bucketsPtr with
  | .error fault => .error fault
  | .ok storage =>
    let index := storage.dict.entries.length
    let entries := storage.dict.entries ++ [entry]
    match insertBucket storage.dict.buckets entries index with
    | .error fault => .error fault
    | .ok buckets => .ok { storage with dict := { entries, buckets }, entriesPtr }

/-- The end of `dict_remove` for a key that is there. -/
def removeEntry (index bucketsPtr : ℕ) : Except Fault (Placed K V) :=
  if index < storage.dict.entries.length then
    let entries := storage.dict.entries.eraseIdx index
    rebuildDictBuckets { storage with dict := { storage.dict with entries } } bucketsPtr
  else
    .error .panic

def dictPopLast (bucketsPtr : ℕ) : Except Fault (Placed K V) :=
  if storage.dict.entries.isEmpty then
    .ok storage
  else
    let entries := storage.dict.entries.dropLast
    rebuildDictBuckets { storage with dict := { storage.dict with entries } } bucketsPtr

/-- Both vectors are cleared and keep their allocations. -/
def dictClear : Placed K V :=
  { storage with dict := { entries := [], buckets := [] } }

/-- A change that a dict operation makes. An operation that looks a key up makes the change of
`ensure_dict_buckets` first and its own after the lookup, with those of the comparisons between. -/
inductive Mutation (K V : Type)
  | ensureBuckets (bucketsPtr : ℕ)
  | overwrite (index : ℕ) (value : V)
  | append (entry : DictEntry K V) (bucketsPtr entriesPtr : ℕ)
  | remove (index bucketsPtr : ℕ)
  | popLast (bucketsPtr : ℕ)
  | clear
deriving DecidableEq, Repr

def Mutation.apply : Mutation K V → Except Fault (Placed K V)
  | .ensureBuckets bucketsPtr => ensureDictBuckets storage bucketsPtr
  | .overwrite index value => overwriteEntry storage index value
  | .append entry bucketsPtr entriesPtr => appendEntry storage entry bucketsPtr entriesPtr
  | .remove index bucketsPtr => removeEntry storage index bucketsPtr
  | .popLast bucketsPtr => dictPopLast storage bucketsPtr
  | .clear => .ok (dictClear storage)

def applyAll (mutations : List (Mutation K V)) : Except Fault (Placed K V) :=
  mutations.foldlM Mutation.apply storage

/-- What one call of a user's `__eq__` does. -/
structure UserEq (K V : Type) where
  mutations : List (Mutation K V)
  answer : Except String Bool
deriving DecidableEq

/-- A comparison that was made, with the storage before and after it. -/
structure Comparison (K V : Type) where
  entryKey : K
  key : K
  before : Placed K V
  call : UserEq K V
  after : Placed K V

/-- The storage, the calls of `__eq__` that are still to come, and the comparisons made so far. -/
structure World (K V : Type) where
  storage : Placed K V
  calls : List (UserEq K V)
  compared : List (Comparison K V)

abbrev DictM (K V α : Type) := Comp (World K V) Fault α

def dictRef : DictM K V (Placed K V) := fun w ↦ (.ok w.storage, w)

def mutate (mutation : Mutation K V) : DictM K V Unit := fun w ↦
  match mutation.apply w.storage with
  | .error fault => (.error fault, w)
  | .ok storage => (.ok (), { w with storage })

/-- With no call left the user's `__eq__` has not returned. -/
def dispatchUserEq (entryKey key : K) : DictM K V Bool := fun w ↦
  match w.calls with
  | [] => (.error .diverged, w)
  | call :: calls =>
    match applyAll w.storage call.mutations with
    | .error fault => (.error fault, w)
    | .ok after =>
      let comparison := { entryKey, key, before := w.storage, call, after }
      (call.answer.mapError .error, { storage := after, calls, compared := w.compared ++ [comparison] })

section Lookup

variable [DecidableEq K]

/-- The deferred pass of `find_entry_index`; `none` restarts the search. -/
def dispatchDeferred (witness : ℕ × ℕ × ℕ × ℕ) (key : K) :
    List (ℕ × K) → DictM K V (Option (Option ℕ))
  | [] => pure (some none)
  | (index, entryKey) :: rest => do
    let equal ← dispatchUserEq entryKey key
    let storage ← dictRef
    if equal then
      if storage.dict.entries[index]?.map DictEntry.key = some entryKey then
        pure (some (some index))
      else
        pure none
    else if storageWitness storage ≠ witness then
      pure none
    else
      dispatchDeferred witness key rest

variable (keys : KeyOps K)

/-- `find_entry_index`, with a bound on the number of restarts. -/
def findEntryIndex (key : K) (hash : BitVec 64) : ℕ → DictM K V (Option ℕ)
  | 0 => fail .diverged
  | restarts + 1 => do
    let storage ← dictRef
    if storage.dict.buckets.isEmpty then
      pure none
    else do
      let (matched, deferred) ← lift (collectCandidates keys storage.dict key hash
        storage.dict.buckets.length (bucketIndex hash storage.dict.buckets.length) [])
      match matched with
      | some index => pure (some index)
      | none =>
        if deferred.isEmpty then
          pure none
        else do
          match ← dispatchDeferred (storageWitness storage) key deferred with
          | some found => pure found
          | none => findEntryIndex key hash restarts

/-- The first half of `dict_insert`: the hash of the key and the index of its entry. -/
def locate (restarts ensuredPtr : ℕ) (key : K) : DictM K V (BitVec 64 × Option ℕ) := do
  let hash ← lift (hashDictKey keys key)
  mutate (.ensureBuckets ensuredPtr)
  let found ← findEntryIndex keys key hash restarts
  pure (hash, found)

/-- The addresses that the allocator picks for the vectors that a call of `dict_insert` allocates. -/
structure Placement where
  ensuredPtr : ℕ
  grownPtr : ℕ
  entriesPtr : ℕ
deriving DecidableEq, Repr

def dictInsert (restarts : ℕ) (placement : Placement) (key : Option K) (value : Option V) :
    DictM K V Unit :=
  match key, value with
  | none, _ => fail (.error "dict key is NULL")
  | some _, none => fail (.error "dict value is NULL")
  | some key, some value => do
    let (hash, found) ← locate keys restarts placement.ensuredPtr key
    match found with
    | some index => mutate (.overwrite index value)
    | none => mutate (.append { key, value, hash } placement.grownPtr placement.entriesPtr)

end Lookup

end Pon.Dict.Reentrant
