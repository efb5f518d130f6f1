import Pon.Dict.Storage
import Pon.Lib.Probing

/-!
# The dict refines an insertion-ordered association list

The abstract dict is a list of key-value pairs in insertion order, searched with an equality on
keys. The main result runs an arbitrary sequence of calls on the storage and on the list: the
replies agree, the entry vector holds the list, and the bucket table indexes the entries whenever
it has been built. A new or a cleared dict has no bucket table yet; the first keyed call builds it.
-/

namespace Pon.Dict

open Pon.Probing

variable {K V : Type*}

/-! ## The abstract dict -/

/-- Update the first pair whose key is equal to `key`, or append a new pair. -/
def Assoc.insert (eq : K → K → Bool) (key : K) (value : V) : List (K × V) → List (K × V)
  | [] => [(key, value)]
  | pair :: rest =>
    if eq pair.1 key then (pair.1, value) :: rest else pair :: Assoc.insert eq key value rest

def Assoc.get (eq : K → K → Bool) (key : K) (pairs : List (K × V)) : Option V :=
  (pairs.find? fun pair ↦ eq pair.1 key).map Prod.snd

def Assoc.remove (eq : K → K → Bool) (key : K) (pairs : List (K × V)) : List (K × V) :=
  pairs.eraseP fun pair ↦ eq pair.1 key

/-- One call on the abstract dict. NULL and unhashable arguments are refused as the runtime does. -/
def Assoc.call (keys : KeyOps K) (eq : K → K → Bool) (pairs : List (K × V)) :
    Call K V → Reply K V × List (K × V)
  | .insert none _ => (.inserted (.error (.error "dict key is NULL")), pairs)
  | .insert (some _) none => (.inserted (.error (.error "dict value is NULL")), pairs)
  | .insert (some key) (some value) =>
    match hashDictKey keys key with
    | .error fault => (.inserted (.error fault), pairs)
    | .ok _ => (.inserted (.ok ()), Assoc.insert eq key value pairs)
  | .get none => (.got (.error (.error "dict key is NULL")), pairs)
  | .get (some key) =>
    match hashDictKey keys key with
    | .error fault => (.got (.error fault), pairs)
    | .ok _ => (.got (.ok (Assoc.get eq key pairs)), pairs)
  | .remove none => (.removed (.error (.error "dict key is NULL")), pairs)
  | .remove (some key) =>
    match hashDictKey keys key with
    | .error fault => (.removed (.error fault), pairs)
    | .ok _ => (.removed (.ok (Assoc.get eq key pairs)), Assoc.remove eq key pairs)
  | .popLast => (.popped (.ok pairs.getLast?), pairs.dropLast)
  | .clear => (.cleared (.ok (pairs.map Prod.fst)), [])

def Assoc.run (keys : KeyOps K) (eq : K → K → Bool) (pairs : List (K × V)) :
    List (Call K V) → List (Reply K V) × List (K × V)
  | [] => ([], pairs)
  | c :: rest =>
    let (reply, pairs) := Assoc.call keys eq pairs c
    let (replies, pairs) := Assoc.run keys eq pairs rest
    (reply :: replies, pairs)

/-- The pairs that a storage stands for. -/
def pairs (dict : PyDictStorage K V) : List (K × V) :=
  dict.entries.map fun entry ↦ (entry.key, entry.value)

/-- Keys have a fixed hash and are compared by the equivalence `eq`, which implies equal hashes. A
comparison that is not decided structurally is decided by the Python-level `__eq__`. -/
structure LawfulKeys (keys : KeyOps K) (eq : K → K → Bool) : Prop where
  decides : ∀ a b, keys.objectEqualStructural a b = some (.ok (eq a b)) ∨
    keys.objectEqualStructural a b = none ∧ keys.dispatchUserEq a b = .ok (eq a b)
  refl : ∀ a, eq a a
  symm : ∀ a b, eq a b → eq b a
  trans : ∀ a b c, eq a b → eq b c → eq a c
  hash_eq : ∀ a b, eq a b → keys.hashObject a = keys.hashObject b

/-! ## Invariant -/

/-- Home bucket of the entry at `index` in a table of `size` buckets. -/
def home (entries : List (DictEntry K V)) (size index : ℕ) : ℕ :=
  (entries[index]?.map fun entry ↦ bucketIndex entry.hash size).getD 0

/-- The bucket table has a power-of-two size, refers to each entry index exactly once, has an empty
bucket, and no empty bucket stands between an entry's home bucket and its position. -/
structure WellIndexed (dict : PyDictStorage K V) : Prop where
  power_of_two : ∃ k, dict.buckets.length = 2 ^ k
  once : ∀ i, dict.buckets.count (some i) = if i < dict.entries.length then 1 else 0
  vacant : none ∈ dict.buckets
  path : ∀ i < dict.entries.length, ∃ d < dict.buckets.length,
    dict.buckets[slot dict.buckets.length (home dict.entries dict.buckets.length i) d]? =
        some (some i) ∧
      ∀ e < d, dict.buckets[slot dict.buckets.length (home dict.entries dict.buckets.length i) e]? ≠
        some none

/-- The table is built and indexes the entries. -/
structure Built (dict : PyDictStorage K V) : Prop where
  power_of_two : ∃ k, dict.buckets.length = 2 ^ k
  indexed : Indexed (home dict.entries dict.buckets.length) dict.entries.length dict.buckets
  room : dict.entries.length < dict.buckets.length

variable {dict : PyDictStorage K V} {entries : List (DictEntry K V)} {keys : KeyOps K}
  {eq : K → K → Bool}

theorem Built.wellIndexed (h : Built dict) : WellIndexed dict where
  power_of_two := h.power_of_two
  once := h.indexed.once
  vacant := h.indexed.none_mem h.room
  path := h.indexed.path

/-- The entries carry the hash of their key and no two keys are equal. -/
structure GoodEntries (keys : KeyOps K) (eq : K → K → Bool) (entries : List (DictEntry K V)) :
    Prop where
  hashed : ∀ entry ∈ entries, keys.hashObject entry.key = .ok entry.hash
  distinct : entries.Pairwise fun a b ↦ eq a.key b.key = false

structure Invariant (keys : KeyOps K) (eq : K → K → Bool) (dict : PyDictStorage K V) : Prop where
  good : GoodEntries keys eq dict.entries
  table : dict.entries = [] ∧ dict.buckets = [] ∨ Built dict

/-! ## Bucket arithmetic -/

variable (n : ℕ)

theorem le_nextPowerOfTwo : n ≤ nextPowerOfTwo n := by
  unfold nextPowerOfTwo
  split
  · assumption
  · have := Nat.lt_log2_self (n := n - 1)
    omega

theorem nextPowerOfTwo_eq_pow : ∃ k, nextPowerOfTwo n = 2 ^ k := by
  unfold nextPowerOfTwo
  split
  · exact ⟨0, rfl⟩
  · exact ⟨_, rfl⟩

theorem two_mul_le_bucketCapacity : n * 2 ≤ bucketCapacity n :=
  le_trans (le_max_left _ _) (le_nextPowerOfTwo _)

theorem eight_le_bucketCapacity : 8 ≤ bucketCapacity n :=
  le_trans (le_max_right _ _) (le_nextPowerOfTwo _)

theorem bucketCapacity_eq_pow : ∃ k, bucketCapacity n = 2 ^ k :=
  nextPowerOfTwo_eq_pow _

theorem lt_bucketCapacity : n < bucketCapacity n := by
  have := two_mul_le_bucketCapacity n
  have := eight_le_bucketCapacity n
  omega

variable {size : ℕ} {buckets : List (Option ℕ)} {entries' : List (DictEntry K V)}
  {entry : DictEntry K V}

theorem slot_zero_bucketIndex (hsize : ∃ k, size = 2 ^ k) (hash : BitVec 64) :
    slot size (bucketIndex hash size) 0 = bucketIndex hash size := by
  obtain ⟨k, rfl⟩ := hsize
  simp [slot, bucketIndex]

theorem nextBucket_slot (hsize : ∃ k, size = 2 ^ k) (start d : ℕ) :
    nextBucket size (slot size start d) = slot size start (d + 1) := by
  obtain ⟨k, rfl⟩ := hsize
  simp [slot, nextBucket, Nat.add_assoc]

/-! ## Building the table -/

theorem insertBucketLoop_of_firstVacant {start d : ℕ} (index : ℕ)
    (hsize : ∃ k, buckets.length = 2 ^ k) (hd : FirstVacant buckets start d) :
    insertBucketLoop buckets index buckets.length (slot buckets.length start 0) =
      .ok (buckets.set (slot buckets.length start d) (some index)) := by
  apply hd.search (motive := fun c rounds ↦
    insertBucketLoop buckets index rounds (slot buckets.length start c) = _)
  · intro rounds
    rw [insertBucketLoop, hd.vacant]
  · intro c rounds j _ hj hnext
    rw [insertBucketLoop, hj, ← hnext, ← nextBucket_slot hsize]

theorem insertBucket_indexed {n : ℕ} (hsize : ∃ k, buckets.length = 2 ^ k) (hn : n < entries.length)
    (hroom : n < buckets.length) (h : Indexed (home entries buckets.length) n buckets) :
    ∃ buckets', insertBucket buckets entries n = .ok buckets' ∧
      buckets'.length = buckets.length ∧
      Indexed (home entries buckets'.length) (n + 1) buckets' := by
  obtain ⟨d, hd⟩ := exists_firstVacant (h.none_mem hroom) (home entries buckets.length n)
  refine ⟨buckets.set (slot buckets.length (home entries buckets.length n) d) (some n), ?_,
    List.length_set, ?_⟩
  · have hhome : home entries buckets.length n = bucketIndex (entries[n]).hash buckets.length := by
      simp [home, hn]
    have hloop := insertBucketLoop_of_firstVacant n hsize hd
    rw [hhome, slot_zero_bucketIndex hsize] at hloop
    have hne : buckets ≠ [] := List.ne_nil_of_length_pos (by omega)
    simp only [insertBucket, List.isEmpty_iff, hne, if_false, List.getElem?_eq_getElem hn, hhome]
    exact hloop
  · rw [List.length_set]
    exact h.place hd

/-- Rebuilding a table that is large enough succeeds and indexes the entries. -/
theorem rebuild_built (dict : PyDictStorage K V) {capacity : ℕ} (hsize : ∃ k, capacity = 2 ^ k)
    (hroom : dict.entries.length < capacity) :
    ∃ buckets, rebuildDictBucketsWithCapacity dict capacity = .ok { dict with buckets } ∧
      buckets.length = capacity ∧ Built { dict with buckets } := by
  obtain ⟨buckets, hfold, rfl, hindexed⟩ :=
      Indexed.fill (home dict.entries capacity) dict.entries.length capacity
        (fun buckets index ↦ insertBucket buckets dict.entries index) fun buckets m hlen hm hindexed ↦ by
    subst hlen
    obtain ⟨buckets', hinsert, hlen, hindexed'⟩ := insertBucket_indexed hsize hm (by omega) hindexed
    exact ⟨buckets', hinsert, hlen, hlen ▸ hindexed'⟩
  refine ⟨buckets, ?_, rfl, ⟨hsize, hindexed, hroom⟩⟩
  simp [rebuildDictBucketsWithCapacity, hfold, Except.map]

theorem rebuildDictBuckets_built (dict : PyDictStorage K V) :
    ∃ buckets, rebuildDictBuckets dict = .ok { dict with buckets } ∧
      buckets.length = bucketCapacity dict.entries.length ∧ Built { dict with buckets } :=
  rebuild_built dict (bucketCapacity_eq_pow _) (lt_bucketCapacity _)

theorem ensureDictBuckets_built (h : dict.entries = [] ∧ dict.buckets = [] ∨ Built dict) :
    ∃ buckets, ensureDictBuckets dict = .ok { dict with buckets } ∧ Built { dict with buckets } := by
  unfold ensureDictBuckets
  split
  · obtain ⟨buckets, heq, _, hbuilt⟩ := rebuildDictBuckets_built dict
    exact ⟨buckets, heq, hbuilt⟩
  · rename_i hlarge
    rcases h with ⟨_, hempty⟩ | hbuilt
    · have := eight_le_bucketCapacity dict.entries.length
      simp [hempty] at hlarge
      omega
    · exact ⟨dict.buckets, rfl, hbuilt⟩

/-- Before an insertion the table is grown so that the new index leaves a bucket empty. -/
theorem ensureDictInsertCapacity_built (h : Built dict) :
    ∃ buckets, ensureDictInsertCapacity dict = .ok { dict with buckets } ∧
      Built { dict with buckets } ∧ dict.entries.length + 1 < buckets.length := by
  unfold ensureDictInsertCapacity
  simp only [ge_iff_le]
  split
  · obtain ⟨buckets, heq, hlen, hbuilt⟩ :=
      rebuild_built dict (bucketCapacity_eq_pow (dict.entries.length + 1))
        (lt_trans (Nat.lt_succ_self _) (lt_bucketCapacity _))
    exact ⟨buckets, heq, hbuilt, hlen ▸ lt_bucketCapacity _⟩
  · exact ⟨dict.buckets, rfl, h, by omega⟩

/-! ## Lookup -/

/-- The entry at `index` has a key equal to `key`. -/
def Matches (eq : K → K → Bool) (entries : List (DictEntry K V)) (key : K) (index : ℕ) : Prop :=
  ∃ entry, entries[index]? = some entry ∧ eq entry.key key

/-- A deferred candidate: an entry whose comparison with `key` is left to `__eq__`. -/
def Deferred (keys : KeyOps K) (entries : List (DictEntry K V)) (key : K) (candidate : ℕ × K) :
    Prop :=
  entries[candidate.1]?.map DictEntry.key = some candidate.2 ∧
    keys.objectEqualStructural candidate.2 key = none

section Lookup

variable {keys : KeyOps K} {eq : K → K → Bool} {dict : PyDictStorage K V} {key : K}
  {hash : BitVec 64}

variable {entry : DictEntry K V} {start d : ℕ}

theorem eq_false_of_hash_ne (hlaw : LawfulKeys keys eq) (hhash : keys.hashObject key = .ok hash)
    (hentry : keys.hashObject entry.key = .ok entry.hash) (hne : entry.hash ≠ hash) :
    eq entry.key key = false := by
  by_contra htrue
  have hsame := hlaw.hash_eq _ _ (by simpa using htrue)
  rw [hentry, hhash] at hsame
  exact hne (Except.ok.inj hsame)

/-- Outcome of a collection pass that meets the indices of `met`: it fails only where a structural
comparison does, a match is a structural match, every candidate is deferred, and without a match the
entries with the hash that are no candidates are different. -/
def Collected (keys : KeyOps K) (dict : PyDictStorage K V) (key : K) (hash : BitVec 64)
    (deferred : List (ℕ × K)) (met : ℕ → Prop) : Except Fault (Option ℕ × List (ℕ × K)) → Prop
  | .error _ => ∃ entry ∈ dict.entries, ∃ message,
      keys.objectEqualStructural entry.key key = some (.error message)
  | .ok (some i, _) => ∃ entry, dict.entries[i]? = some entry ∧
      keys.objectEqualStructural entry.key key = some (.ok true)
  | .ok (none, candidates) => deferred ⊆ candidates ∧
      (∀ candidate ∈ candidates, candidate ∈ deferred ∨ Deferred keys dict.entries key candidate) ∧
      ∀ i entry, met i → dict.entries[i]? = some entry → entry.hash = hash →
        keys.objectEqualStructural entry.key key = some (.ok false) ∨ (i, entry.key) ∈ candidates

variable {result : Except Fault (Option ℕ × List (ℕ × K))}

/-- A pass that hands its candidates on to the rest. -/
theorem Collected.of_rest {deferred deferred' : List (ℕ × K)} {met met' : ℕ → Prop}
    (hsub : deferred ⊆ deferred')
    (hdeferred : ∀ candidate ∈ deferred',
      candidate ∈ deferred ∨ Deferred keys dict.entries key candidate)
    (hmet : ∀ i entry, met i → dict.entries[i]? = some entry → entry.hash = hash →
      met' i ∨ keys.objectEqualStructural entry.key key = some (.ok false) ∨ (i, entry.key) ∈ deferred')
    (h : Collected keys dict key hash deferred' met' result) :
    Collected keys dict key hash deferred met result := by
  match result, h with
  | .error _, h => exact h
  | .ok (some _, _), h => exact h
  | .ok (none, candidates), ⟨hsub', hcandidates, hlater⟩ =>
    refine ⟨List.Subset.trans hsub hsub', fun candidate hcandidate ↦
      (hcandidates candidate hcandidate).elim (hdeferred candidate) .inr, fun i entry hi hentry hhash ↦ ?_⟩
    rcases hmet i entry hi hentry hhash with hi | hhere
    · exact hlater i entry hi hentry hhash
    · exact hhere.imp_right fun hmem ↦ hsub' hmem

/-- The collection pass of a built table meets every entry with the hash. -/
theorem collectCandidates_spec (hbuilt : Built dict)
    (hresult : collectCandidates keys dict key hash dict.buckets.length
      (bucketIndex hash dict.buckets.length) [] = result) :
    Collected keys dict key hash [] (fun _ ↦ True) result := by
  obtain ⟨start, hstart⟩ : ∃ start, bucketIndex hash dict.buckets.length = start := ⟨_, rfl⟩
  obtain ⟨d, hd⟩ := exists_firstVacant (hbuilt.indexed.none_mem hbuilt.room) start
  have hrun := hd.search (motive := fun c rounds ↦ ∀ deferred : List (ℕ × K),
    Collected keys dict key hash deferred (Met dict.buckets start d c)
      (collectCandidates keys dict key hash rounds (slot dict.buckets.length start c) deferred)) ?_ ?_ []
  · rw [← hstart, slot_zero_bucketIndex hbuilt.power_of_two, hresult] at hrun
    refine hrun.of_rest (List.Subset.refl _) (fun _ ↦ .inl) fun i entry _ hentry hhash ↦ .inl ?_
    have hhome : home dict.entries dict.buckets.length i = bucketIndex hash dict.buckets.length := by
      simp [home, hentry, hhash]
    exact hhome ▸ hbuilt.indexed.met_before_vacant (List.getElem?_eq_some_iff.mp hentry).1
      (hhome.trans hstart ▸ hd)
  · intro rounds deferred
    rw [collectCandidates, hd.vacant]
    exact ⟨List.Subset.refl _, fun _ ↦ .inl, fun _ _ hmet ↦ absurd hmet not_met⟩
  · intro c rounds index _ hindex ih deferred
    obtain ⟨entry, hget⟩ : ∃ entry, dict.entries[index]? = some entry :=
      ⟨_, List.getElem?_eq_getElem (hbuilt.indexed.index_lt hindex)⟩
    -- the rest of the path, from candidates that account for the entry at step `c`
    have hrest (deferred' : List (ℕ × K)) (hsub : deferred ⊆ deferred')
        (hdeferred : ∀ candidate ∈ deferred',
          candidate ∈ deferred ∨ Deferred keys dict.entries key candidate)
        (hhere : entry.hash = hash → keys.objectEqualStructural entry.key key = some (.ok false) ∨
          (index, entry.key) ∈ deferred') : Collected keys dict key hash deferred (Met dict.buckets start d c)
          (collectCandidates keys dict key hash rounds (slot dict.buckets.length start (c + 1))
            deferred') := by
      refine (ih deferred').of_rest hsub hdeferred ?_
      intro i other hmet hother hhash
      obtain rfl | hlater := hmet.step hindex
      · obtain rfl := Option.some.inj (hget.symm.trans hother)
        exact .inr (hhere hhash)
      · exact .inl hlater
    rw [collectCandidates, hindex]
    simp only [hget, nextBucket_slot hbuilt.power_of_two]
    split
    · split
      · rename_i hequal
        exact ⟨entry, hget, hequal⟩
      · rename_i hfalse
        exact hrest deferred (List.Subset.refl _) (fun _ ↦ .inl) fun _ ↦ .inl hfalse
      · rename_i message herror
        exact ⟨entry, List.mem_of_getElem? hget, message, herror⟩
      · rename_i hnone
        refine hrest _ (List.subset_append_left _ _) (fun candidate hcandidate ↦ ?_)
          fun _ ↦ .inr (by simp)
        rcases List.mem_append.mp hcandidate with hold | hnew
        · exact .inl hold
        · rw [List.mem_singleton.mp hnew]
          exact .inr ⟨by simp [hget], hnone⟩
    · rename_i hne
      exact hrest deferred (List.Subset.refl _) (fun _ ↦ .inl) fun hhash ↦ absurd hhash hne

variable (hlaw : LawfulKeys keys eq)
include hlaw

theorem dispatchDeferred_spec [DecidableEq K]
    (candidates : List (ℕ × K))
    (hcandidates : ∀ candidate ∈ candidates, Deferred keys dict.entries key candidate) :
    ∃ found, dispatchDeferred keys dict (storageWitness dict) key candidates = .ok (some found) ∧
      (∀ i, found = some i → Matches eq dict.entries key i) ∧
      (found = none → ∀ candidate ∈ candidates, eq candidate.2 key = false) := by
  induction candidates with
  | nil => exact ⟨none, rfl, by simp, by simp⟩
  | cons candidate rest ih =>
    obtain ⟨index, entryKey⟩ := candidate
    obtain ⟨hkey, hstructural⟩ := hcandidates (index, entryKey) (by simp)
    have hdispatch : keys.dispatchUserEq entryKey key = .ok (eq entryKey key) := by
      rcases hlaw.decides entryKey key with hdec | ⟨_, hdec⟩
      · rw [hstructural] at hdec
        cases hdec
      · exact hdec
    rw [dispatchDeferred, hdispatch]
    cases heq : eq entryKey key with
    | true =>
      refine ⟨some index, by simp [hkey], ?_, by simp⟩
      rintro i ⟨⟩
      obtain ⟨entry, hentry, rfl⟩ := Option.map_eq_some_iff.mp hkey
      exact ⟨entry, hentry, heq⟩
    | false =>
      obtain ⟨found, hrun, hfound, hnone⟩ :=
        ih fun candidate hcandidate ↦ hcandidates candidate (by simp [hcandidate])
      refine ⟨found, by simpa using hrun, hfound, fun hf candidate hcandidate ↦ ?_⟩
      rcases List.mem_cons.mp hcandidate with rfl | hrest
      · exact heq
      · exact hnone hf candidate hrest

/-- A search of a built table returns a matching index if there is one, without a restart. -/
theorem findEntryIndex_spec [DecidableEq K]
    (hhash : keys.hashObject key = .ok hash) (hgood : GoodEntries keys eq dict.entries)
    (hbuilt : Built dict) (restarts : ℕ) :
    ∃ found, findEntryIndex keys dict key hash (restarts + 1) = .ok found ∧
      (∀ i, found = some i → Matches eq dict.entries key i) ∧
      (found = none → ∀ i, ¬ Matches eq dict.entries key i) := by
  have hne : dict.buckets ≠ [] := List.ne_nil_of_length_pos (Nat.zero_lt_of_lt hbuilt.room)
  rw [findEntryIndex]
  simp only [List.isEmpty_iff, hne, if_false]
  rcases hrun : collectCandidates keys dict key hash dict.buckets.length
    (bucketIndex hash dict.buckets.length) [] with _ | ⟨_ | index, candidates⟩
  · obtain ⟨entry, _, message, herror⟩ := collectCandidates_spec hbuilt hrun
    rcases hlaw.decides entry.key key with hdec | ⟨hdec, _⟩ <;> simp [hdec] at herror
  · obtain ⟨-, hdeferred, hmet⟩ := collectCandidates_spec hbuilt hrun
    replace hdeferred : ∀ candidate ∈ candidates, Deferred keys dict.entries key candidate :=
      fun candidate hcandidate ↦ (hdeferred candidate hcandidate).resolve_left List.not_mem_nil
    -- An entry that matches has the hash of the key and is not structurally different.
    have hmatched : ∀ i entry, dict.entries[i]? = some entry → eq entry.key key →
        (i, entry.key) ∈ candidates := by
      intro i entry hentry heq
      have hsame : entry.hash = hash := by
        by_contra hne
        have hfalse := eq_false_of_hash_ne hlaw hhash
          (hgood.hashed entry (List.mem_of_getElem? hentry)) hne
        simp [hfalse] at heq
      refine (hmet i entry trivial hentry hsame).resolve_left fun hfalse ↦ ?_
      rcases hlaw.decides entry.key key with hdec | ⟨hdec, _⟩ <;> simp [hdec, heq] at hfalse
    by_cases hempty : candidates = []
    · refine ⟨none, by simp [hempty], by simp, fun _ i ⟨entry, hentry, heq⟩ ↦ ?_⟩
      simpa [hempty] using hmatched i entry hentry heq
    · obtain ⟨found, hdispatch, hfound, hnone⟩ := dispatchDeferred_spec hlaw candidates hdeferred
      refine ⟨found, by simp [hempty, hdispatch], hfound, fun hf i ⟨entry, hentry, heq⟩ ↦ ?_⟩
      simpa [heq] using hnone hf _ (hmatched i entry hentry heq)
  · obtain ⟨entry, hentry, hequal⟩ := collectCandidates_spec hbuilt hrun
    refine ⟨some index, rfl, ?_, by simp⟩
    rintro i ⟨⟩
    refine ⟨entry, hentry, ?_⟩
    rcases hlaw.decides entry.key key with hdec | ⟨hdec, _⟩ <;> simp_all

/-- The entries around the only index that matches. -/
theorem matches_split (hgood : GoodEntries keys eq dict.entries)
    {i : ℕ} (h : Matches eq dict.entries key i) :
    ∃ before entry after, dict.entries[i]? = some entry ∧
      dict.entries = before ++ entry :: after ∧ before.length = i ∧ eq entry.key key ∧ ∀ other ∈ before, eq other.key key = false := by
  obtain ⟨entry, hentry, heq⟩ := h
  obtain ⟨hi, hget⟩ := List.getElem?_eq_some_iff.mp hentry
  have hsplit : dict.entries = dict.entries.take i ++ entry :: dict.entries.drop (i + 1) := by
    rw [← hget, List.getElem_cons_drop, List.take_append_drop]
  refine ⟨dict.entries.take i, entry, dict.entries.drop (i + 1), hentry, hsplit,
    by simp; omega, heq, ?_⟩
  intro other hother
  have hdistinct := hgood.distinct
  rw [hsplit] at hdistinct
  have hne := (List.pairwise_append.mp hdistinct).2.2 other hother entry (by simp)
  by_contra htrue
  have hsymm := hlaw.symm _ _ heq
  have := hlaw.trans _ _ _ (by simpa using htrue) hsymm
  simp [this] at hne

/-- The lookup that starts every keyed operation: the table is built, the entries are untouched, and
the search finds the matching entry or there is none. -/
theorem lookup_spec [DecidableEq K] (hinv : Invariant keys eq dict)
    (hhash : keys.hashObject key = .ok hash) (restarts : ℕ) :
    ∃ buckets found, ensureDictBuckets dict = .ok { dict with buckets } ∧
      Built { dict with buckets } ∧
      findEntryIndex keys { dict with buckets } key hash (restarts + 1) = .ok found ∧
      (∀ i, found = some i → Matches eq dict.entries key i) ∧
      (found = none → ∀ entry ∈ dict.entries, eq entry.key key = false) := by
  obtain ⟨buckets, hensure, hbuilt⟩ := ensureDictBuckets_built hinv.table
  have hgood : GoodEntries keys eq (PyDictStorage.mk dict.entries buckets).entries := hinv.good
  obtain ⟨found, hfind, hfound, hnone⟩ := findEntryIndex_spec hlaw hhash hgood hbuilt restarts
  refine ⟨buckets, found, hensure, hbuilt, hfind, hfound, fun hf entry hentry ↦ ?_⟩
  obtain ⟨i, hi, hget⟩ := List.getElem_of_mem hentry
  by_contra htrue
  exact hnone hf i ⟨entry, by rw [← hget, List.getElem?_eq_getElem hi], by simpa using htrue⟩

end Lookup

/-! ## Operations -/

theorem hashDictKey_ok {key : K} {hash : BitVec 64} (h : hashDictKey keys key = .ok hash) :
    keys.hashObject key = .ok hash := by
  unfold hashDictKey at h
  cases hobject : keys.hashObject key with
  | ok value =>
    rw [hobject] at h
    simpa using h
  | error message =>
    simp only [hobject] at h
    split at h <;> cases h

theorem GoodEntries.sublist (h : GoodEntries keys eq entries) (hsub : entries'.Sublist entries) :
    GoodEntries keys eq entries' where
  hashed entry hentry := h.hashed entry (hsub.subset hentry)
  distinct := h.distinct.sublist hsub

/-- A new value for an entry. -/
theorem GoodEntries.overwrite {before after : List (DictEntry K V)}
    (h : GoodEntries keys eq (before ++ entry :: after)) (value : V) :
    GoodEntries keys eq (before ++ { entry with value } :: after) where
  hashed other hother := by
    rcases List.mem_append.mp hother with hmem | hmem
    · exact h.hashed other (List.mem_append_left _ hmem)
    · rcases List.mem_cons.mp hmem with rfl | hmem
      · exact h.hashed entry (by simp)
      · exact h.hashed other (by simp [hmem])
  distinct := by
    have hdistinct := h.distinct
    simpa [List.pairwise_append] using hdistinct

/-- A new entry whose key is equal to none of the others. -/
theorem GoodEntries.append (h : GoodEntries keys eq entries)
    (hhash : keys.hashObject entry.key = .ok entry.hash)
    (hnone : ∀ other ∈ entries, eq other.key entry.key = false) :
    GoodEntries keys eq (entries ++ [entry]) where
  hashed other hother := by
    rcases List.mem_append.mp hother with hmem | hmem
    · exact h.hashed other hmem
    · rw [List.mem_singleton.mp hmem]
      exact hhash
  distinct := by
    refine List.pairwise_append.mpr ⟨h.distinct, List.pairwise_singleton _ _, ?_⟩
    intro other hother new hnew
    rw [List.mem_singleton.mp hnew]
    exact hnone other hother

theorem home_congr (h : entries'.map DictEntry.hash = entries.map DictEntry.hash) (size : ℕ) :
    home entries' size = home entries size := by
  funext index
  have hget := congrArg (fun hashes : List (BitVec 64) ↦ hashes[index]?) h
  simp only [List.getElem?_map] at hget
  have hmap := congrArg (Option.map fun hash ↦ bucketIndex hash size) hget
  simp only [Option.map_map, Function.comp_def] at hmap
  rw [home, home, hmap]

namespace Assoc

variable {eq : K → K → Bool} {key : K} {value : V} {before after rest : List (K × V)} {pair : K × V}

theorem insert_present (hbefore : ∀ other ∈ before, eq other.1 key = false)
    (heq : eq pair.1 key) :
    Assoc.insert eq key value (before ++ pair :: after) = before ++ (pair.1, value) :: after := by
  induction before with
  | nil => simp [Assoc.insert, heq]
  | cons first before ih =>
    have hfirst : eq first.1 key = false := hbefore first (by simp)
    have hrest := ih fun other hother ↦ hbefore other (by simp [hother])
    simp [Assoc.insert, hfirst, hrest]

theorem insert_absent (habsent : ∀ other ∈ rest, eq other.1 key = false) :
    Assoc.insert eq key value rest = rest ++ [(key, value)] := by
  induction rest with
  | nil => rfl
  | cons first rest ih =>
    have hfirst : eq first.1 key = false := habsent first (by simp)
    have hrest := ih fun other hother ↦ habsent other (by simp [hother])
    simp [Assoc.insert, hfirst, hrest]

theorem get_present (hbefore : ∀ other ∈ before, eq other.1 key = false) (heq : eq pair.1 key) :
    Assoc.get eq key (before ++ pair :: after) = some pair.2 := by
  have hnone : before.find? (fun other ↦ eq other.1 key) = none := by
    simpa [List.find?_eq_none] using hbefore
  simp [Assoc.get, List.find?_append, hnone, heq]

theorem get_absent (habsent : ∀ other ∈ rest, eq other.1 key = false) :
    Assoc.get eq key rest = none := by
  have hnone : rest.find? (fun other ↦ eq other.1 key) = none := by
    simpa [List.find?_eq_none] using habsent
  simp [Assoc.get, hnone]

theorem remove_present (hbefore : ∀ other ∈ before, eq other.1 key = false)
    (heq : eq pair.1 key) :
    Assoc.remove eq key (before ++ pair :: after) = before ++ after := by
  unfold Assoc.remove
  rw [List.eraseP_append_right _ (by simpa using hbefore), List.eraseP_cons_of_pos (by simpa using heq)]

theorem remove_absent (habsent : ∀ other ∈ rest, eq other.1 key = false) :
    Assoc.remove eq key rest = rest :=
  List.eraseP_of_forall_not (by simpa using habsent)

theorem pairs_ne (h : ∀ entry ∈ entries, eq entry.key key = false) :
    ∀ pair ∈ entries.map (fun entry ↦ (entry.key, entry.value)), eq pair.1 key = false := by
  intro pair hpair
  obtain ⟨entry, hentry, rfl⟩ := List.mem_map.mp hpair
  exact h entry hentry

end Assoc

section Operations

variable [DecidableEq K] {keys : KeyOps K} {eq : K → K → Bool} {dict : PyDictStorage K V} {key : K}
  {hash : BitVec 64} (hlaw : LawfulKeys keys eq) (hinv : Invariant keys eq dict)
  (hhash : hashDictKey keys key = .ok hash)
include hlaw hinv hhash

theorem dictInsert_refines (value : V) (restarts : ℕ) :
    ∃ dict', dictInsert keys (restarts + 1) dict (some key) (some value) = (.ok (), dict') ∧
      pairs dict' = Assoc.insert eq key value (pairs dict) ∧ Invariant keys eq dict' := by
  have hkey := hashDictKey_ok hhash
  obtain ⟨buckets, found, hensure, hbuilt, hfind, hfound, hnone⟩ := lookup_spec hlaw hinv hkey restarts
  simp only [dictInsert, hhash, hensure, hfind]
  cases found with
  | some index =>
    obtain ⟨before, entry, after, hget, hsplit, hlen, heq, hbefore⟩ :=
      matches_split hlaw hinv.good (hfound index rfl)
    have hset : dict.entries.set index { entry with value } =
        before ++ { entry with value } :: after := by simp [hsplit, ← hlen]
    have hhome : home (before ++ { entry with value } :: after) = home dict.entries := by
      funext size
      exact home_congr (by simp [hsplit]) size
    simp only [hget, hset]
    refine ⟨_, rfl, ?_, ⟨(hsplit ▸ hinv.good).overwrite value, Or.inr ⟨hbuilt.power_of_two, ?_, ?_⟩⟩⟩
    · simp only [pairs, hsplit, List.map_append, List.map_cons]
      symm
      exact Assoc.insert_present (Assoc.pairs_ne hbefore) heq
    · have hindexed := hbuilt.indexed
      simpa only [hhome, hsplit, List.length_append, List.length_cons] using hindexed
    · have hroom := hbuilt.room
      simpa [hsplit] using hroom
  | none =>
    obtain ⟨buckets', hcapacity, hbuilt', hroom⟩ := ensureDictInsertCapacity_built hbuilt
    simp only [hcapacity] at hbuilt' hroom ⊢
    have hindexed : Indexed (home (dict.entries ++ [⟨key, value, hash⟩]) buckets'.length)
        dict.entries.length buckets' := by
      apply hbuilt'.indexed.congr
      intro i hi
      simp [home, List.getElem?_append_left hi]
    obtain ⟨buckets'', hinsert, hlen, hindexed'⟩ := insertBucket_indexed hbuilt'.power_of_two
      (by simp) hbuilt'.room hindexed
    simp only [hinsert]
    refine ⟨_, rfl, ?_, ⟨hinv.good.append hkey (hnone rfl), Or.inr ⟨?_, ?_, ?_⟩⟩⟩
    · simp only [pairs, List.map_append, List.map_cons, List.map_nil]
      exact (Assoc.insert_absent (Assoc.pairs_ne (hnone rfl))).symm
    · simpa [hlen] using hbuilt'.power_of_two
    · simpa using hindexed'
    · simp [hlen]
      omega

theorem dictGet_refines (restarts : ℕ) :
    ∃ dict', dictGet keys (restarts + 1) dict (some key) =
        (.ok (Assoc.get eq key (pairs dict)), dict') ∧
      pairs dict' = pairs dict ∧ Invariant keys eq dict' := by
  obtain ⟨buckets, found, hensure, hbuilt, hfind, hfound, hnone⟩ :=
    lookup_spec hlaw hinv (hashDictKey_ok hhash) restarts
  simp only [dictGet, hhash, hensure, hfind]
  cases found with
  | some index =>
    obtain ⟨before, entry, after, hget, hsplit, hlen, heq, hbefore⟩ :=
      matches_split hlaw hinv.good (hfound index rfl)
    have hassoc : Assoc.get eq key (pairs dict) = some entry.value := by
      simp only [pairs, hsplit, List.map_append, List.map_cons]
      exact Assoc.get_present (Assoc.pairs_ne hbefore) heq
    simp only [hget, hassoc]
    exact ⟨_, rfl, rfl, hinv.good, Or.inr hbuilt⟩
  | none =>
    have habsent : Assoc.get eq key (pairs dict) = none := Assoc.get_absent (Assoc.pairs_ne (hnone rfl))
    rw [habsent]
    exact ⟨_, rfl, rfl, hinv.good, Or.inr hbuilt⟩

theorem dictRemove_refines (restarts : ℕ) :
    ∃ dict', dictRemove keys (restarts + 1) dict (some key) =
        (.ok (Assoc.get eq key (pairs dict)), dict') ∧
      pairs dict' = Assoc.remove eq key (pairs dict) ∧ Invariant keys eq dict' := by
  obtain ⟨buckets, found, hensure, hbuilt, hfind, hfound, hnone⟩ :=
    lookup_spec hlaw hinv (hashDictKey_ok hhash) restarts
  simp only [dictRemove, hhash, hensure, hfind]
  cases found with
  | some index =>
    obtain ⟨before, entry, after, hget, hsplit, hlen, heq, hbefore⟩ :=
      matches_split hlaw hinv.good (hfound index rfl)
    have herase : dict.entries.eraseIdx index = before ++ after := by
      simp [hsplit, ← hlen, List.eraseIdx_append_of_length_le]
    have hassoc : Assoc.get eq key (pairs dict) = some entry.value := by
      simp only [pairs, hsplit, List.map_append, List.map_cons]
      exact Assoc.get_present (Assoc.pairs_ne hbefore) heq
    obtain ⟨buckets', hrebuild, _, hbuilt'⟩ :=
      rebuildDictBuckets_built { dict with entries := before ++ after, buckets }
    simp only [hget, herase, hrebuild, hassoc]
    refine ⟨_, rfl, ?_, hinv.good.sublist ?_, Or.inr hbuilt'⟩
    · simp only [pairs, hsplit, List.map_append, List.map_cons]
      symm
      exact Assoc.remove_present (Assoc.pairs_ne hbefore) heq
    · rw [hsplit]
      exact (List.sublist_cons_self entry after).append_left before
  | none =>
    have habsent : ∀ pair ∈ pairs dict, eq pair.1 key = false := Assoc.pairs_ne (hnone rfl)
    rw [Assoc.get_absent habsent, Assoc.remove_absent habsent]
    exact ⟨_, rfl, rfl, hinv.good, Or.inr hbuilt⟩

end Operations

theorem dictPopLast_refines (hinv : Invariant keys eq dict) :
    ∃ dict', dictPopLast dict = (.ok (pairs dict).getLast?, dict') ∧
      pairs dict' = (pairs dict).dropLast ∧ Invariant keys eq dict' := by
  unfold dictPopLast
  cases hlast : dict.entries.getLast? with
  | none =>
    have hempty : dict.entries = [] := List.getLast?_eq_none_iff.mp hlast
    exact ⟨dict, by simp [pairs, hempty], by simp [pairs, hempty], hinv⟩
  | some entry =>
    obtain ⟨buckets, hrebuild, _, hbuilt⟩ :=
      rebuildDictBuckets_built { dict with entries := dict.entries.dropLast }
    simp only [hrebuild]
    refine ⟨_, ?_, ?_, hinv.good.sublist (List.dropLast_sublist _), Or.inr hbuilt⟩
    · simp [pairs, List.getLast?_map, hlast]
    · simp [pairs, List.map_dropLast]

/-- One call keeps the invariant and acts as the abstract call does. -/
theorem call_refines [DecidableEq K] (hlaw : LawfulKeys keys eq) (hinv : Invariant keys eq dict)
    (restarts : ℕ) (c : Call K V) :
    (call keys (restarts + 1) dict c).1 = (Assoc.call keys eq (pairs dict) c).1 ∧
      pairs (call keys (restarts + 1) dict c).2 = (Assoc.call keys eq (pairs dict) c).2 ∧
      Invariant keys eq (call keys (restarts + 1) dict c).2 := by
  cases c with
  | insert key value =>
    cases key with
    | none => exact ⟨rfl, rfl, hinv⟩
    | some key =>
      cases value with
      | none => exact ⟨rfl, rfl, hinv⟩
      | some value =>
        cases hhash : hashDictKey keys key with
        | error fault => simp [call, dictInsert, Assoc.call, hhash, hinv]
        | ok hash =>
          obtain ⟨dict', heq, hpairs, hinv'⟩ := dictInsert_refines hlaw hinv hhash value restarts
          simp [call, Assoc.call, hhash, heq, hpairs, hinv']
  | get key =>
    cases key with
    | none => exact ⟨rfl, rfl, hinv⟩
    | some key =>
      cases hhash : hashDictKey keys key with
      | error fault => simp [call, dictGet, Assoc.call, hhash, hinv]
      | ok hash =>
        obtain ⟨dict', heq, hpairs, hinv'⟩ := dictGet_refines hlaw hinv hhash restarts
        simp [call, Assoc.call, hhash, heq, hpairs, hinv']
  | remove key =>
    cases key with
    | none => exact ⟨rfl, rfl, hinv⟩
    | some key =>
      cases hhash : hashDictKey keys key with
      | error fault => simp [call, dictRemove, Assoc.call, hhash, hinv]
      | ok hash =>
        obtain ⟨dict', heq, hpairs, hinv'⟩ := dictRemove_refines hlaw hinv hhash restarts
        simp [call, Assoc.call, hhash, heq, hpairs, hinv']
  | popLast =>
    obtain ⟨dict', heq, hpairs, hinv'⟩ := dictPopLast_refines hinv
    simp [call, Assoc.call, heq, hpairs, hinv']
  | clear =>
    refine ⟨by simp [call, dictClear, Assoc.call, pairs], rfl, ⟨?_, ?_⟩, Or.inl ⟨rfl, rfl⟩⟩
    · simp [call, dictClear]
    · simp [call, dictClear]

theorem run_refines [DecidableEq K] (hlaw : LawfulKeys keys eq) (restarts : ℕ)
    (calls : List (Call K V)) (hinv : Invariant keys eq dict) :
    (run keys (restarts + 1) dict calls).1 = (Assoc.run keys eq (pairs dict) calls).1 ∧
      pairs (run keys (restarts + 1) dict calls).2 = (Assoc.run keys eq (pairs dict) calls).2 ∧
      Invariant keys eq (run keys (restarts + 1) dict calls).2 := by
  induction calls generalizing dict with
  | nil => exact ⟨rfl, rfl, hinv⟩
  | cons c rest ih =>
    obtain ⟨hreply, hpairs, hinv'⟩ := call_refines hlaw hinv restarts c
    obtain ⟨hreplies, hpairs', hinv''⟩ := ih hinv'
    rw [hpairs] at hreplies hpairs'
    exact ⟨by simp [run, Assoc.run, hreply, hreplies], hpairs', hinv''⟩

theorem invariant_initDict (keys : KeyOps K) (eq : K → K → Bool) :
    Invariant keys eq (initDict : PyDictStorage K V) where
  good := ⟨by simp [initDict], by simp [initDict]⟩
  table := Or.inl ⟨rfl, rfl⟩

/-- A dict whose invariant holds is new or has a table that indexes its entries. -/
theorem Invariant.initDict_or_wellIndexed (h : Invariant keys eq dict) :
    dict = initDict ∨ WellIndexed dict := by
  rcases h.table with ⟨hentries, hbuckets⟩ | hbuilt
  · left
    calc
      dict = PyDictStorage.mk dict.entries dict.buckets := rfl
      _ = initDict := by
            rw [hentries, hbuckets, initDict]
  · exact .inr hbuilt.wellIndexed

/-- Decimal residues as keys: colliding hashes, and an `__eq__` for the keys from ten on. -/
def residueKeys : KeyOps ℕ where
  hashObject key := .ok (BitVec.ofNat 64 (key % 10 % 3))
  typeName _ := some "residue"
  objectEqualStructural a b := if a < 10 then some (.ok (a % 10 == b % 10)) else none
  dispatchUserEq a b := .ok (a % 10 == b % 10)

theorem residueKeys_lawful : LawfulKeys residueKeys fun a b ↦ a % 10 == b % 10 where
  decides a b := by
    by_cases ha : a < 10
    · exact Or.inl (by simp [residueKeys, ha])
    · exact Or.inr ⟨by simp [residueKeys, ha], rfl⟩
  refl a := by simp
  symm a b h := by simpa using (beq_iff_eq.mp h).symm
  trans a b c hab hbc := by simpa using (beq_iff_eq.mp hab).trans (beq_iff_eq.mp hbc)
  hash_eq a b h := by simp [residueKeys, beq_iff_eq.mp h]

/-- Every sequence of calls on a new dict replies as the insertion-ordered association list does
and leaves its pairs in the entry vector; the table indexes the entries, except that a dict without
entries may have no table. A single pass of the lookup suffices, whatever the restart bound. -/
theorem dict_refines_assoc [DecidableEq K] {keys : KeyOps K} {eq : K → K → Bool}
    (hlaw : LawfulKeys keys eq) (restarts : ℕ) (calls : List (Call K V)) :
    (run keys (restarts + 1) initDict calls).1 = (Assoc.run keys eq [] calls).1 ∧
      pairs (run keys (restarts + 1) initDict calls).2 = (Assoc.run keys eq [] calls).2 ∧
      ((run keys (restarts + 1) initDict calls).2 = initDict ∨
        WellIndexed (run keys (restarts + 1) initDict calls).2) := by
  obtain ⟨hreplies, hpairs, hinv⟩ := run_refines hlaw restarts calls (invariant_initDict keys eq)
  exact ⟨hreplies, hpairs, hinv.initDict_or_wellIndexed⟩

/-- Keys 1 and 4 collide, 11 and 21 are equal to 1: the update keeps the first key and its place. -/
theorem dict_refines_assoc_collisions :
    pairs (run residueKeys 1 initDict
      [.insert (some 1) (some 7), .insert (some 4) (some 8), .insert (some 11) (some 9),
        .get (some 21)]).2 = [(1, 9), (4, 8)] :=
  (dict_refines_assoc residueKeys_lawful 0 _).2.1

/-- A new dict and a cleared dict have an empty bucket array, which is no table. -/
theorem cleared_dict_not_wellIndexed :
    ¬ WellIndexed (run residueKeys 1 (initDict : PyDictStorage ℕ ℕ) []).2 ∧
      ¬ WellIndexed (run residueKeys 1 (initDict : PyDictStorage ℕ ℕ)
        [.insert (some 1) (some 7), .clear]).2 :=
  ⟨fun h ↦ List.not_mem_nil h.vacant, fun h ↦ List.not_mem_nil h.vacant⟩

end Pon.Dict
