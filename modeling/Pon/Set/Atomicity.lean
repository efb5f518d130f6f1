import Pon.Set.Hooked
import Pon.Set.Table

/-!
# What a failing set operation leaves behind

An operation that fails has left the entries as they were and a table that refers to them, unless it
fails when it hashes the elements that remain after a removal. These are hashed again for the new
table, after the element has been removed from the entries and before the old table is replaced.
-/

namespace Pon.Set.Hooked

open Dict (Fault bucketCapacity bucketIndex nextBucket lt_bucketCapacity bucketCapacity_eq_pow
  eight_le_bucketCapacity)
open Stateful Comp Probing

variable {σ K : Type}

/-! ## States -/

/-- The table refers to the indices below `n`, each on some search path, and leaves a bucket empty. -/
structure Indexes (n : ℕ) (buckets : List (Option ℕ)) : Prop where
  power_of_two : ∃ k, buckets.length = 2 ^ k
  indexed : ∃ homes, Indexed homes n buckets
  room : n < buckets.length

/-- The table is not built, or refers to the entries. -/
def Valid (object : SetObject K) : Prop :=
  object.buckets = [] ∨ Indexes object.entries.length object.buckets

def World.Valid (w : World σ K) : Prop :=
  ∀ object, w.object = some object → Hooked.Valid object

/-- The table refers to exactly the entry indices. -/
def RefersExactly (n : ℕ) (buckets : List (Option ℕ)) : Prop :=
  ∀ i, buckets.count (some i) = if i < n then 1 else 0

theorem Indexes.refersExactly {n : ℕ} {buckets : List (Option ℕ)} (h : Indexes n buckets) :
    RefersExactly n buckets := by
  obtain ⟨homes, hindexed⟩ := h.indexed
  exact hindexed.once

/-- The entries are those before and the table is that before or a new one for them. -/
structure Unchanged (before after : SetObject K) : Prop where
  entries : after.entries = before.entries
  buckets : after.buckets = before.buckets ∨ RefersExactly after.entries.length after.buckets

/-- The object is unchanged, or there was no set. -/
def Atomic (w w' : World σ K) : Prop :=
  w'.object = w.object ∨
    ∃ before after, w.object = some before ∧ w'.object = some after ∧ Unchanged before after

/-- The elements that remain after the removal of an index. -/
def remaining (w : World σ K) (index : ℕ) : Option (List K × World σ K) :=
  match w.object with
  | some (.set set) => some (set.entries.eraseIdx index, w)
  | _ => none

/-- The elements that remain after the removal of an operation and the world in which they are hashed
again, if the operation removes an element. -/
def removal [DecidableEq K] (hooks : Hooks σ K) (restarts : ℕ) (w : World σ K) :
    Operation K → Option (List K × World σ K)
  | .pop =>
    match setMut w with
    | (.ok set, w) => if set.entries.isEmpty then none else remaining w 0
    | _ => none
  | .remove (some item) =>
    match (hashSetElement hooks item >>= searchSet hooks restarts item) w with
    | (.ok (some index), w) => remaining w index
    | _ => none
  | _ => none

/-- Hash elements, one after the other. -/
def hashAll (hooks : Hooks σ K) (elements : List K) : SetM σ K Unit :=
  elements.foldlM (fun _ element ↦ hashSetElement hooks element >>= fun _ ↦ pure ()) ()

/-! ## The object is kept -/

section Keep

variable (hooks : Hooks σ K)

theorem keeps_setMut : Keeps World.object (setMut : SetM σ K (PySet K)) := by
  intro w
  unfold setMut
  split <;> rfl

theorem keeps_frozensetRef : Keeps World.object (frozensetRef : SetM σ K (PyFrozenSet K)) := by
  intro w
  unfold frozensetRef
  split <;> rfl

theorem keeps_hashSetElement (item : K) : Keeps World.object (hashSetElement hooks item) := fun _ ↦ rfl

theorem keeps_objectEqual (left right : K) : Keeps World.object (objectEqual hooks left right) :=
  fun _ ↦ rfl

theorem keeps_candidateMatches (entry item : K) (hash : BitVec 64) :
    Keeps World.object (candidateMatches hooks entry item hash) := by
  refine (keeps_hashSetElement hooks entry).bind fun entryHash ↦ ?_
  split
  · exact keeps_objectEqual hooks entry item
  · exact Keeps.pure false

theorem keeps_placeIndex (entries : List K) (buckets : List (Option ℕ)) (index : ℕ) :
    Keeps World.object (placeIndex hooks entries buckets index) := by
  unfold placeIndex
  split
  · exact Keeps.fail _
  · refine (keeps_hashSetElement hooks _).bind fun hash ↦ ?_
    split
    · exact Keeps.fail _
    · exact Keeps.pure _
    · exact Keeps.pure _

theorem keeps_hashAll (elements : List K) : Keeps World.object (hashAll hooks elements) :=
  Keeps.foldlM (fun _ _ ↦ (keeps_hashSetElement hooks _).bind fun _ ↦ Keeps.pure _) _ _

theorem keeps_frozensetProbe (set : PyFrozenSet K) (item : K) (hash : BitVec 64) (rounds bucket : ℕ) :
    Keeps World.object (frozensetProbe hooks set item hash rounds bucket) := by
  induction rounds generalizing bucket with
  | zero => exact Keeps.pure false
  | succ rounds ih =>
    unfold frozensetProbe
    split
    · exact Keeps.fail _
    · exact Keeps.pure false
    · split
      · exact Keeps.fail _
      · refine (keeps_candidateMatches hooks _ _ _).bind fun same ↦ ?_
        split
        · exact Keeps.pure true
        · exact ih _

variable [DecidableEq K]

theorem keeps_verifyCandidates (witness : ℕ × ℕ) (item : K) (hash : BitVec 64)
    (candidates : List (ℕ × K)) :
    Keeps World.object (verifyCandidates hooks witness item hash candidates) := by
  induction candidates with
  | nil => exact Keeps.pure _
  | cons candidate rest ih =>
    unfold verifyCandidates
    split
    · exact Keeps.pure _
    · refine (keeps_candidateMatches hooks _ _ _).bind fun same ↦ keeps_setMut.bind fun storage ↦ ?_
      split
      · split <;> exact Keeps.pure _
      · split
        · exact Keeps.pure _
        · exact ih

theorem keeps_findSetIndex (item : K) (hash : BitVec 64) (restarts : ℕ) :
    Keeps World.object (findSetIndex hooks item hash restarts) := by
  induction restarts with
  | zero => exact Keeps.fail _
  | succ restarts ih =>
    unfold findSetIndex
    refine keeps_setMut.bind fun storage ↦ ?_
    split
    · exact Keeps.pure _
    · refine (Keeps.lift _).bind fun candidates ↦ ?_
      split
      · exact Keeps.pure _
      · refine (keeps_verifyCandidates hooks _ _ _ _).bind fun found ↦ ?_
        split
        · exact Keeps.pure _
        · exact ih

end Keep

/-! ## Filling a table -/

section Fill

variable {buckets : List (Option ℕ)}

variable {n : ℕ}

section

variable (hsize : ∃ k, buckets.length = 2 ^ k) (hindexed : ∃ homes, Indexed homes n buckets)
  (hroom : n < buckets.length) (hash : BitVec 64)
include hsize hindexed hroom

theorem Indexes.exists_probeVacant :
    ∃ bucket, probeVacant buckets buckets.length (bucketIndex hash buckets.length) = .ok (some bucket) ∧
      ∃ homes, Indexed homes (n + 1) (buckets.set bucket (some n)) := by
  obtain ⟨homes, hindexed⟩ := hindexed
  have hupdated : Indexed (Function.update homes n (bucketIndex hash buckets.length)) n buckets :=
    hindexed.congr fun i hi ↦ Function.update_of_ne (Nat.ne_of_lt hi) _ _
  obtain ⟨bucket, hprobe, hplaced⟩ :=
    probeVacant_indexed hsize hroom (Function.update_self _ _ _) hupdated
  exact ⟨bucket, hprobe, _, hplaced⟩

/-- A table with room takes the next index, whatever its hash. -/
theorem exists_insertBucketHashed :
    ∃ buckets', insertBucketHashed buckets hash n = .ok buckets' ∧ buckets'.length = buckets.length ∧
      ∃ homes, Indexed homes (n + 1) buckets' := by
  obtain ⟨bucket, hprobe, hplaced⟩ := Indexes.exists_probeVacant hsize hindexed hroom hash
  have hne : buckets.isEmpty = false := by
    rw [List.isEmpty_eq_false_iff]
    exact List.ne_nil_of_length_pos (Nat.zero_lt_of_lt hroom)
  refine ⟨buckets.set bucket (some n), ?_, List.length_set, hplaced⟩
  simp only [insertBucketHashed, hne, Bool.false_eq_true, if_false, hprobe]

end

/-- A step that hashes the entry at an index and puts the index into the table. -/
def Fills (hooks : Hooks σ K) (entries : List K)
    (place : List (Option ℕ) → ℕ → SetM σ K (List (Option ℕ))) : Prop :=
  ∀ (buckets : List (Option ℕ)) (n : ℕ) (entry : K) (w : World σ K), entries[n]? = some entry →
    (∃ k, buckets.length = 2 ^ k) → (∃ homes, Indexed homes n buckets) → n < buckets.length →
    (∀ fault w', hashSetElement hooks entry w = (.error fault, w') →
      place buckets n w = (.error fault, w')) ∧
    ∀ hash w', hashSetElement hooks entry w = (.ok hash, w') →
      ∃ buckets', place buckets n w = (.ok buckets', w') ∧ buckets'.length = buckets.length ∧
        ∃ homes, Indexed homes (n + 1) buckets'

variable {hooks : Hooks σ K} {entries : List K}

theorem fills_insertBucket (hooks : Hooks σ K) (entries : List K) :
    Fills hooks entries (insertBucket hooks entries) := by
  intro buckets n entry w hget hsize hindexed hroom
  unfold insertBucket
  simp only [hget]
  constructor
  · intro fault w' hhash
    exact bind_error hhash
  · intro hash w' hhash
    obtain ⟨buckets', hinsert, hlength, hindexed'⟩ :=
      exists_insertBucketHashed hsize hindexed hroom hash
    refine ⟨buckets', ?_, hlength, hindexed'⟩
    rw [bind_ok hhash, hinsert]
    rfl

theorem fills_placeIndex (hooks : Hooks σ K) (entries : List K) :
    Fills hooks entries (placeIndex hooks entries) := by
  intro buckets n entry w hget hsize hindexed hroom
  unfold placeIndex
  simp only [hget]
  constructor
  · intro fault w' hhash
    exact bind_error hhash
  · intro hash w' hhash
    obtain ⟨bucket, hprobe, hindexed'⟩ := Indexes.exists_probeVacant hsize hindexed hroom hash
    refine ⟨buckets.set bucket (some n), ?_, List.length_set, hindexed'⟩
    rw [bind_ok hhash, hprobe]
    rfl

theorem hashAll_append (elements : List K) (element : K) :
    hashAll hooks (elements ++ [element]) =
      hashAll hooks elements >>= fun _ ↦ hashSetElement hooks element >>= fun _ ↦ pure () := by
  unfold hashAll
  simp only [List.foldlM_append, List.foldlM_cons, List.foldlM_nil, bind_pure]

/-- Filling a table that is large enough fails exactly where hashing the elements does, and in the same
world. -/
theorem fill_spec {place : List (Option ℕ) → ℕ → SetM σ K (List (Option ℕ))}
    (hfills : Fills hooks entries place) {capacity : ℕ} (hsize : ∃ k, capacity = 2 ^ k)
    (hroom : entries.length < capacity) (w : World σ K) (m : ℕ) (hm : m ≤ entries.length) :
    (∀ fault w', hashAll hooks (entries.take m) w = (.error fault, w') →
      (List.range m).foldlM place (List.replicate capacity none) w = (.error fault, w')) ∧
    ∀ w', hashAll hooks (entries.take m) w = (.ok (), w') →
      ∃ buckets, (List.range m).foldlM place (List.replicate capacity none) w = (.ok buckets, w') ∧
        buckets.length = capacity ∧ ∃ homes, Indexed homes m buckets := by
  induction m with
  | zero =>
    constructor
    · intro fault w' hhash
      cases hhash
    · intro w' hhash
      cases hhash
      exact ⟨_, rfl, List.length_replicate, fun _ ↦ 0, Indexed.replicate _ _⟩
  | succ m ih =>
    obtain ⟨hfail, hdone⟩ := ih (by omega)
    have hlt : m < entries.length := by omega
    have htake : entries.take (m + 1) = entries.take m ++ [entries[m]] := by
      rw [List.take_append_getElem]
    have hget : entries[m]? = some entries[m] := List.getElem?_eq_getElem hlt
    have hstep (buckets : List (Option ℕ)) (w' : World σ K) :
        List.foldlM place buckets [m] w' = place buckets m w' := by
      simp only [List.foldlM_cons, List.foldlM_nil, bind_pure]
    rw [htake, hashAll_append, List.range_succ, List.foldlM_append]
    constructor
    · intro fault w' hhash
      rcases of_bind_error hhash with hfirst | ⟨_, w'', hfirst, hlast⟩
      · exact bind_error (hfail fault w' hfirst)
      · obtain ⟨buckets, hfold, hlength, hindexed⟩ := hdone w'' hfirst
        rw [bind_ok hfold, hstep]
        rcases of_bind_error hlast with hlast | ⟨_, _, _, hpure⟩
        · exact (hfills buckets m _ w'' hget (hlength ▸ hsize) hindexed (by omega)).1 fault w' hlast
        · cases hpure
    · intro w' hhash
      obtain ⟨_, w'', hfirst, hlast⟩ := of_bind_ok hhash
      obtain ⟨hash, w₃, hlast, hpure⟩ := of_bind_ok hlast
      cases hpure
      obtain ⟨buckets, hfold, hlength, hindexed⟩ := hdone w'' hfirst
      obtain ⟨buckets', hplace, hlength', hindexed'⟩ :=
        (hfills buckets m _ w'' hget (hlength ▸ hsize) hindexed (by omega)).2 hash w' hlast
      refine ⟨buckets', ?_, hlength'.trans hlength, hindexed'⟩
      rw [bind_ok hfold, hstep, hplace]

theorem buildBuckets_indexes {w w' : World σ K}
    (h : buildBuckets hooks entries w = (.ok buckets, w')) : Indexes entries.length buckets := by
  have hspec := fill_spec (fills_placeIndex hooks entries) (bucketCapacity_eq_pow entries.length)
    (lt_bucketCapacity _) w _ le_rfl
  rw [List.take_length] at hspec
  unfold buildBuckets at h
  rcases hhash : hashAll hooks entries w with ⟨fault | _, w₁⟩
  · have hfail := hspec.1 fault w₁ hhash
    rw [h] at hfail
    cases hfail
  · obtain ⟨buckets', hfold, hlength, hindexed⟩ := hspec.2 w₁ hhash
    rw [h] at hfold
    cases hfold
    exact ⟨hlength ▸ bucketCapacity_eq_pow _, hindexed, hlength ▸ lt_bucketCapacity _⟩

end Fill

/-! ## Rebuilding -/

section Rebuild

variable {hooks : Hooks σ K} {w : World σ K} {set : PySet K}

theorem setMut_set (h : w.object = some (.set set)) : setMut w = (.ok set, w) := by
  unfold setMut
  rw [h]

theorem setMut_ne_set (h : ∀ set, w.object ≠ some (.set set)) :
    (setMut w : Except Fault (PySet K) × World σ K) = (.error (.error "expected set object"), w) := by
  unfold setMut
  split
  · rename_i set heq
    exact absurd heq (h set)
  · rfl

variable {capacity extra : ℕ}

/-- The entries are hashed, and the new table is written when all of them have been. -/
theorem rebuild_spec (hooks : Hooks σ K) (h : w.object = some (.set set))
    (hsize : ∃ k, capacity = 2 ^ k) (hroom : set.entries.length < capacity) :
    (∀ fault w', hashAll hooks set.entries w = (.error fault, w') →
      rebuildSetBucketsWithCapacity hooks capacity w = (.error fault, w')) ∧
    ∀ w', hashAll hooks set.entries w = (.ok (), w') →
      ∃ buckets, rebuildSetBucketsWithCapacity hooks capacity w =
          (.ok (), { w' with object := some (.set { set with buckets }) }) ∧
        buckets.length = capacity ∧ Indexes set.entries.length buckets := by
  have hspec := fill_spec (fills_insertBucket hooks set.entries) hsize hroom w _ le_rfl
  rw [List.take_length] at hspec
  obtain ⟨hfail, hdone⟩ := hspec
  unfold rebuildSetBucketsWithCapacity fillBuckets
  rw [bind_ok (setMut_set h)]
  constructor
  · intro fault w' hhash
    exact bind_error (hfail fault w' hhash)
  · intro w' hhash
    obtain ⟨buckets, hfold, hlength, hindexed⟩ := hdone w' hhash
    refine ⟨buckets, ?_, hlength, ⟨hlength ▸ hsize, hindexed, hlength ▸ hroom⟩⟩
    rw [bind_ok hfold]
    rfl

/-- What an outcome leaves of a mutable set: the entries as they were, with a table for them. -/
def Tabled (set : PySet K) (w : World σ K) : Prop :=
  ∃ buckets, w.object = some (.set { set with buckets }) ∧
    (buckets = set.buckets ∨ Indexes set.entries.length buckets)

/-- A new table for `set` that holds `extra` more indices with room left. -/
def Grown (set : PySet K) (extra : ℕ) (w : World σ K) : Prop :=
  ∃ buckets, w.object = some (.set { set with buckets }) ∧ Indexes set.entries.length buckets ∧
    set.entries.length + extra < buckets.length

theorem Tabled.of_object {w' : World σ K} (h : w.object = some (.set set)) (hsame : w'.object = w.object) :
    Tabled set w' :=
  ⟨set.buckets, hsame.trans h, .inl rfl⟩

theorem Grown.tabled (h : Grown set extra w) : Tabled set w := by
  obtain ⟨buckets, hobject, hindexes, -⟩ := h
  exact ⟨buckets, hobject, .inr hindexes⟩

theorem rebuild_tabled (h : w.object = some (.set set)) (hsize : ∃ k, capacity = 2 ^ k)
    (hroom : set.entries.length + extra < capacity) :
    (∃ fault w', rebuildSetBucketsWithCapacity hooks capacity w = (.error fault, w') ∧ Tabled set w') ∨
      ∃ w', rebuildSetBucketsWithCapacity hooks capacity w = (.ok (), w') ∧ Grown set extra w' := by
  obtain ⟨hfail, hdone⟩ := rebuild_spec hooks h hsize (by omega)
  rcases hhash : hashAll hooks set.entries w with ⟨fault | _, w'⟩
  · exact .inl ⟨fault, w', hfail fault w' hhash, .of_object h ((keeps_hashAll hooks _).eq hhash)⟩
  · obtain ⟨buckets, hrebuild, hlength, hindexes⟩ := hdone w' hhash
    exact .inr ⟨_, hrebuild, buckets, rfl, hindexes, hlength ▸ hroom⟩

theorem ensureSetBuckets_spec (hooks : Hooks σ K) (h : w.object = some (.set set)) (hvalid : Valid (.set set)) :
    (∃ fault w', ensureSetBuckets hooks w = (.error fault, w') ∧ Tabled set w') ∨
      ∃ w', ensureSetBuckets hooks w = (.ok (), w') ∧ Grown set 0 w' := by
  unfold ensureSetBuckets
  rw [bind_ok (setMut_set h)]
  split
  · unfold rebuildSetBuckets
    rw [bind_ok (setMut_set h)]
    exact rebuild_tabled h (bucketCapacity_eq_pow _) (lt_bucketCapacity _)
  · rename_i hlarge
    rcases hvalid with hempty | hindexes
    · have hcapacity := eight_le_bucketCapacity set.entries.length
      have hnil : set.buckets = [] := hempty
      rw [hnil, List.length_nil] at hlarge
      omega
    · exact .inr ⟨w, rfl, set.buckets, h, hindexes, hindexes.room⟩

theorem ensureSetInsertCapacity_spec (hooks : Hooks σ K) (h : w.object = some (.set set))
    (hindexes : Indexes set.entries.length set.buckets) :
    (∃ fault w', ensureSetInsertCapacity hooks w = (.error fault, w') ∧ Tabled set w') ∨
      ∃ w', ensureSetInsertCapacity hooks w = (.ok (), w') ∧ Grown set 1 w' := by
  unfold ensureSetInsertCapacity
  rw [bind_ok (setMut_set h)]
  split
  · exact rebuild_tabled h (bucketCapacity_eq_pow _) (lt_bucketCapacity _)
  · rename_i hlarge
    refine .inr ⟨w, rfl, set.buckets, h, hindexes, ?_⟩
    have hroom := hindexes.room
    omega

end Rebuild

/-! ## The search -/

section Search

variable [DecidableEq K] {hooks : Hooks σ K} {w w' : World σ K} {set : PySet K} {item : K}
  {hash : BitVec 64}

variable {candidates : List (ℕ × K)} {index restarts : ℕ}

omit [DecidableEq K] in
/-- A candidate is an entry at its index. -/
theorem collectCandidates_mem {rounds bucket : ℕ}
    (h : collectCandidates set rounds bucket = .ok candidates) :
    ∀ candidate ∈ candidates, set.entries[candidate.1]? = some candidate.2 := by
  induction rounds generalizing bucket candidates with
  | zero =>
    cases h
    exact nofun
  | succ rounds ih =>
    unfold collectCandidates at h
    split at h
    · cases h
    · cases h
      exact nofun
    · rename_i index hbucket
      split at h
      · cases h
      · rename_i entry hentry
        cases hrest : collectCandidates set rounds (nextBucket set.buckets.length bucket) with
        | error fault =>
          rw [hrest] at h
          cases h
        | ok rest =>
          rw [hrest] at h
          cases h
          intro candidate hmem
          rcases List.mem_cons.mp hmem with rfl | hmem
          · exact hentry
          · exact ih hrest candidate hmem

/-- What the deferred pass finds is the index of an entry. -/
theorem verifyCandidates_lt {witness : ℕ × ℕ} (hset : w.object = some (.set set))
    (hcandidates : ∀ candidate ∈ candidates, set.entries[candidate.1]? = some candidate.2)
    (h : verifyCandidates hooks witness item hash candidates w = (.ok (some (some index)), w')) :
    index < set.entries.length := by
  induction candidates generalizing w with
  | nil => cases h
  | cons candidate rest ih =>
    have hlt : candidate.1 < set.entries.length :=
      (List.getElem?_eq_some_iff.mp (hcandidates candidate List.mem_cons_self)).1
    unfold verifyCandidates at h
    split at h
    · cases h
      exact hlt
    · obtain ⟨same, w₁, hsame, h⟩ := of_bind_ok h
      have hset₁ : w₁.object = some (.set set) :=
        ((keeps_candidateMatches hooks _ _ _).eq hsame).trans hset
      rw [bind_ok (setMut_set hset₁)] at h
      split at h
      · split at h
        · cases h
          exact hlt
        · cases h
      · split at h
        · cases h
        · exact ih hset₁ (fun other hother ↦ hcandidates other (List.mem_cons_of_mem _ hother)) h

theorem findSetIndex_lt (hset : w.object = some (.set set))
    (h : findSetIndex hooks item hash restarts w = (.ok (some index), w')) :
    index < set.entries.length := by
  induction restarts generalizing w with
  | zero => cases h
  | succ restarts ih =>
    unfold findSetIndex at h
    rw [bind_ok (setMut_set hset)] at h
    split at h
    · cases h
    · obtain ⟨candidates, w₁, hcollect, hsearch⟩ := of_bind_ok h
      obtain ⟨hcandidates, rfl⟩ := of_lift_ok hcollect
      split at hsearch
      · cases hsearch
      · obtain ⟨found, w₂, hverify, hend⟩ := of_bind_ok hsearch
        split at hend
        · cases hend
          exact verifyCandidates_lt hset (collectCandidates_mem hcandidates) hverify
        · exact ih (((keeps_verifyCandidates hooks _ _ _ _).eq hverify).trans hset) hend

/-- The search leaves the set with its entries; when it comes to an end, their table is built. -/
theorem searchSet_spec (h : w.object = some (.set set)) (hvalid : Valid (.set set)) :
    (∃ fault w', searchSet hooks restarts item hash w = (.error fault, w') ∧ Tabled set w') ∨
      ∃ found w', searchSet hooks restarts item hash w = (.ok found, w') ∧ Grown set 0 w' ∧
        ∀ index, found = some index → index < set.entries.length := by
  unfold searchSet
  rcases ensureSetBuckets_spec hooks h hvalid with
    ⟨fault, w', hensure, htabled⟩ | ⟨w', hensure, hgrown⟩
  · exact .inl ⟨fault, w', bind_error hensure, htabled⟩
  · rw [bind_ok hensure]
    rcases hfind : findSetIndex hooks item hash restarts w' with ⟨fault | found, w''⟩
    · have hsame := (keeps_findSetIndex hooks item hash restarts).eq hfind
      obtain ⟨buckets, hobject, hindexes⟩ := hgrown.tabled
      exact .inl ⟨fault, w'', rfl, buckets, hsame.trans hobject, hindexes⟩
    · have hsame := (keeps_findSetIndex hooks item hash restarts).eq hfind
      obtain ⟨buckets, hobject, hindexes⟩ := hgrown
      refine .inr ⟨found, w'', rfl, ⟨buckets, hsame.trans hobject, hindexes⟩, ?_⟩
      rintro index rfl
      have hlt := findSetIndex_lt hobject hfind
      exact hlt

end Search

/-! ## Operations -/

section Operations

variable {hooks : Hooks σ K} {w w' : World σ K} {set : PySet K} {fault : Fault}

theorem Tabled.atomic (h : w.object = some (.set set)) (htabled : Tabled set w') : Atomic w w' := by
  obtain ⟨buckets, hobject, hbuckets⟩ := htabled
  exact .inr ⟨_, _, h, hobject, rfl, hbuckets.imp_right Indexes.refersExactly⟩

variable {w₁ : World σ K}

/-- Hooks do not count. -/
theorem Atomic.of_object (h : Atomic w₁ w') (hsame : w₁.object = w.object) : Atomic w w' := by
  unfold Atomic at h
  rwa [hsame] at h

theorem World.Valid.of_object (h : w.Valid) (hsame : w₁.object = w.object) : w₁.Valid := by
  unfold World.Valid
  rwa [hsame]

theorem World.Valid.of_set (h : w.Valid) (hset : w.object = some (.set set)) : Hooked.Valid (.set set) :=
  h _ hset

/-! ### Frozensets -/

section

variable {set : PyFrozenSet K} (h : w.object = some (.frozenset set))
include h

theorem ensureFrozensetBuckets_error
    (herror : ensureFrozensetBuckets hooks w = (.error fault, w')) : w'.object = w.object := by
  have href : frozensetRef w = (.ok set, w) := by
    unfold frozensetRef
    rw [h]
  unfold ensureFrozensetBuckets at herror
  rw [bind_ok href] at herror
  split at herror
  · cases herror
  · rcases of_bind_error herror with hbuild | ⟨_, _, _, hstore⟩
    · exact Keeps.eq (Keeps.foldlM (keeps_placeIndex hooks _) _ _) hbuild
    · cases hstore

theorem ensureFrozensetBuckets_ok
    (hok : ensureFrozensetBuckets hooks w = (.ok (), w')) : Atomic w w' := by
  have href : frozensetRef w = (.ok set, w) := by
    unfold frozensetRef
    rw [h]
  unfold ensureFrozensetBuckets at hok
  rw [bind_ok href] at hok
  split at hok
  · cases hok
    exact .inl rfl
  · obtain ⟨buckets, w₁, hbuild, hstore⟩ := of_bind_ok hok
    cases hstore
    have hindexes := buildBuckets_indexes hbuild
    exact .inr ⟨_, _, h, rfl, rfl, .inr hindexes.refersExactly⟩

theorem frozensetContains_error {item : K}
    (herror : frozensetContains hooks item w = (.error fault, w')) : Atomic w w' := by
  unfold frozensetContains at herror
  rcases of_bind_error herror with hhash | ⟨hash, w₁, hhash, hrest⟩
  · exact .inl ((keeps_hashSetElement hooks item).eq hhash)
  · have hsame := (keeps_hashSetElement hooks item).eq hhash
    refine Atomic.of_object ?_ hsame
    rcases of_bind_error hrest with hensure | ⟨_, w₂, hensure, hprobe⟩
    · exact .inl (ensureFrozensetBuckets_error (hsame.trans h) hensure)
    · have hbuilt := ensureFrozensetBuckets_ok (hsame.trans h) hensure
      have hprobed : w'.object = w₂.object := by
        refine Keeps.eq (keeps_frozensetRef.bind fun set ↦ ?_) hprobe
        split
        · exact Keeps.pure false
        · exact keeps_frozensetProbe hooks set item hash _ _
      unfold Atomic at hbuilt ⊢
      rwa [hprobed]

end

/-! ### Mutable sets -/

theorem setFillPrehashed_ne_error {elements : List (K × BitVec 64)} (h : w.object = some (.set set)) :
    setFillPrehashed elements w ≠ (.error fault, w') := by
  intro herror
  unfold setFillPrehashed at herror
  rw [bind_ok (setMut_set h)] at herror
  rcases of_bind_error herror with hstore | ⟨_, w₁, _, hrest⟩
  · cases hstore
  rcases of_bind_error hrest with hfill | ⟨_, _, _, hstore⟩
  swap
  · cases hstore
  -- The table has room for all elements, whatever their hashes are.
  have hfilled : ∀ (elements : List (K × BitVec 64)) (n capacity : ℕ) (buckets : List (Option ℕ)),
      buckets.length = capacity → (∃ k, capacity = 2 ^ k) → n + elements.length < capacity →
      (∃ homes, Indexed homes n buckets) →
      ∃ buckets', (elements.zipIdx n).foldlM
        (fun buckets element ↦ insertBucketHashed buckets element.1.2 element.2) buckets =
          .ok buckets' := by
    intro elements
    induction elements with
    | nil => exact fun _ _ buckets _ _ _ _ ↦ ⟨buckets, rfl⟩
    | cons element elements ih =>
      intro n capacity buckets hlength hsize hroom hindexed
      rw [List.length_cons] at hroom
      obtain ⟨buckets', hinsert, hlength', hindexed'⟩ :=
        exists_insertBucketHashed (hlength ▸ hsize) hindexed (by omega) element.2
      obtain ⟨buckets'', hrest⟩ :=
        ih (n + 1) capacity buckets' (hlength'.trans hlength) hsize (by omega) hindexed'
      refine ⟨buckets'', ?_⟩
      rw [List.zipIdx_cons, List.foldlM_cons, hinsert]
      exact hrest
  obtain ⟨buckets', hok⟩ := hfilled elements 0 _ _ List.length_replicate
    (bucketCapacity_eq_pow (set.entries ++ elements.map Prod.fst).length)
    (by
      have hlt := lt_bucketCapacity (set.entries ++ elements.map Prod.fst).length
      rw [List.length_append, List.length_map] at hlt ⊢
      omega)
    ⟨fun _ ↦ 0, Indexed.replicate _ _⟩
  have hresult := (Prod.mk.inj hfill).1
  rw [hok] at hresult
  cases hresult

theorem Tabled.trans {buckets : List (Option ℕ)} (h : Tabled { set with buckets } w)
    (hindexes : Indexes set.entries.length buckets) : Tabled set w := by
  obtain ⟨buckets', hobject, hsame | hindexes'⟩ := h
  · exact ⟨buckets', hobject, .inr (hsame ▸ hindexes)⟩
  · exact ⟨buckets', hobject, .inr hindexes'⟩

variable [DecidableEq K] {restarts : ℕ} {item : K}

variable {hash : BitVec 64}

theorem searchSet_ne_set (h : ∀ set, w.object ≠ some (.set set)) :
    searchSet hooks restarts item hash w = (.error (.error "expected set object"), w) := by
  unfold searchSet ensureSetBuckets
  exact bind_error (bind_error (setMut_ne_set h))

/-- The search of any object, as the operations start with. -/
theorem searchSet_valid (hvalid : w.Valid) :
    (∃ fault w', searchSet hooks restarts item hash w = (.error fault, w') ∧ Atomic w w') ∨
      ∃ found w' set, searchSet hooks restarts item hash w = (.ok found, w') ∧
        w.object = some (.set set) ∧ Grown set 0 w' ∧
        ∀ index, found = some index → index < set.entries.length := by
  by_cases hset : ∃ set, w.object = some (.set set)
  · obtain ⟨set, hset⟩ := hset
    rcases searchSet_spec hset (hvalid.of_set hset) with
      ⟨fault, w', hsearch, htabled⟩ | ⟨found, w', hsearch, hgrown, hlt⟩
    · exact .inl ⟨fault, w', hsearch, htabled.atomic hset⟩
    · exact .inr ⟨found, w', set, hsearch, hset, hgrown, hlt⟩
  · exact .inl ⟨_, w, searchSet_ne_set fun set heq ↦ hset ⟨set, heq⟩, .inl rfl⟩

theorem setAdd_error {item : Option K} (hvalid : w.Valid)
    (herror : setAdd hooks restarts item w = (.error fault, w')) : Atomic w w' := by
  cases item with
  | none =>
    cases herror
    exact .inl rfl
  | some item =>
    rcases of_bind_error herror with hhash | ⟨hash, w₁, hhash, hrest⟩
    · exact .inl ((keeps_hashSetElement hooks item).eq hhash)
    have hsame := (keeps_hashSetElement hooks item).eq hhash
    refine Atomic.of_object ?_ hsame
    rcases searchSet_valid (hvalid.of_object hsame) with
      ⟨fault', w₂, hsearch, hatomic⟩ | ⟨found, w₂, set, hsearch, hset, hgrown, -⟩
    · rw [bind_error hsearch] at hrest
      cases hrest
      exact hatomic
    · rw [bind_ok hsearch] at hrest
      cases found with
      | some index => cases hrest
      | none =>
        obtain ⟨buckets, hobject, hindexes, -⟩ := hgrown
        change (ensureSetInsertCapacity hooks >>= _) w₂ = _ at hrest
        rcases ensureSetInsertCapacity_spec hooks hobject hindexes with
          ⟨fault', w₃, hensure, htabled⟩ | ⟨w₃, hensure, hgrown⟩
        · rw [bind_error hensure] at hrest
          cases hrest
          exact (htabled.trans hindexes).atomic hset
        · -- With the capacity ensured the bucket for the new index is found.
          rw [bind_ok hensure] at hrest
          obtain ⟨buckets', hobject', hindexes', hroom⟩ := hgrown
          rw [bind_ok (setMut_set hobject')] at hrest
          rcases of_bind_error hrest with hstore | ⟨_, w₄, _, hinsert⟩
          · cases hstore
          rcases of_bind_error hinsert with hlift | ⟨_, _, _, hstore⟩
          · obtain ⟨buckets'', hok, -⟩ := exists_insertBucketHashed hindexes'.power_of_two
              hindexes'.indexed hindexes'.room hash
            have hresult := (Prod.mk.inj hlift).1
            rw [hok] at hresult
            cases hresult
          · cases hstore

theorem setContains_error {item : Option K} (hvalid : w.Valid)
    (herror : setContains hooks restarts item w = (.error fault, w')) : Atomic w w' := by
  cases item with
  | none =>
    cases herror
    exact .inl rfl
  | some item =>
    rcases of_bind_error herror with hhash | ⟨hash, w₁, hhash, hrest⟩
    · exact .inl ((keeps_hashSetElement hooks item).eq hhash)
    have hsame := (keeps_hashSetElement hooks item).eq hhash
    refine Atomic.of_object ?_ hsame
    split at hrest
    · rcases searchSet_valid (hvalid.of_object hsame) with
        ⟨fault', w₂, hsearch, hatomic⟩ | ⟨found, w₂, set, hsearch, -⟩
      · rw [bind_error hsearch] at hrest
        cases hrest
        exact hatomic
      · rw [bind_ok hsearch] at hrest
        cases hrest
    · rename_i hobject
      exact frozensetContains_error hobject hrest
    · cases hrest
      exact .inl rfl

omit [DecidableEq K] in
theorem hashAll_object (hooks : Hooks σ K) (elements : List K) (object : Option (SetObject K)) (w : World σ K) :
    hashAll hooks elements { w with object } =
      ((hashAll hooks elements w).1, { (hashAll hooks elements w).2 with object }) := by
  induction elements generalizing w with
  | nil => rfl
  | cons element elements ih =>
    have hcons (w : World σ K) : hashAll hooks (element :: elements) w =
        (hashSetElement hooks element >>= fun _ ↦ hashAll hooks elements) w := by
      unfold hashAll
      simp only [List.foldlM_cons, bind_assoc, pure_bind]
    have hobject : hashSetElement hooks element { w with object } =
        ((hashSetElement hooks element w).1, { (hashSetElement hooks element w).2 with object }) := rfl
    rw [hcons, hcons]
    rcases hhash : hashSetElement hooks element w with ⟨fault | hash, w'⟩
    · rw [hhash] at hobject
      rw [bind_error hhash, bind_error hobject]
    · rw [hhash] at hobject
      rw [bind_ok hhash, bind_ok hobject, ih]

/-- The end of a removal. -/
def dropTo (hooks : Hooks σ K) (set : PySet K) (rest : List K) : SetM σ K Unit := do
  store (.set { set with entries := rest })
  rebuildSetBuckets hooks

omit [DecidableEq K] in
/-- The elements that remain are hashed again, and when that fails the element is gone. -/
theorem dropTo_spec (hooks : Hooks σ K) (w : World σ K) (set : PySet K) (rest : List K) :
    (∀ fault w', hashAll hooks rest w = (.error fault, w') →
      dropTo hooks set rest w =
        (.error fault, { w' with object := some (.set { set with entries := rest }) })) ∧
    ∀ w', hashAll hooks rest w = (.ok (), w') → ∃ w'', dropTo hooks set rest w = (.ok (), w'') := by
  have hstored : (store (.set { set with entries := rest }) : SetM σ K Unit) w =
      (.ok (), { w with object := some (.set { set with entries := rest }) }) := rfl
  have hmut := setMut_set (w := { w with object := some (.set { set with entries := rest }) }) rfl
  have hhashed := hashAll_object hooks rest (some (.set { set with entries := rest })) w
  have hrebuild := rebuild_spec hooks (w := { w with object := some (.set { set with entries := rest }) })
    rfl (bucketCapacity_eq_pow rest.length) (lt_bucketCapacity _)
  unfold dropTo rebuildSetBuckets
  rw [bind_ok hstored, bind_ok hmut]
  constructor
  · intro fault w' hhash
    rw [hhash] at hhashed
    exact hrebuild.1 fault _ hhashed
  · intro w' hhash
    rw [hhash] at hhashed
    obtain ⟨buckets, hdone, -⟩ := hrebuild.2 _ hhashed
    exact ⟨_, hdone⟩

omit [DecidableEq K] in
theorem Atomic.length_eq {before after : SetObject K} (h : Atomic w w')
    (hbefore : w.object = some before) (hafter : w'.object = some after) :
    after.entries.length = before.entries.length := by
  rcases h with hsame | ⟨before', after', hbefore', hafter', hunchanged⟩
  · rw [hbefore, hafter] at hsame
    rw [Option.some.inj hsame]
  · obtain rfl := Option.some.inj (hbefore.symm.trans hbefore')
    obtain rfl := Option.some.inj (hafter.symm.trans hafter')
    rw [hunchanged.entries]

/-- The pop of an object: nothing to remove, or the end of a removal. -/
theorem setPop_cases (hooks : Hooks σ K) (w : World σ K) :
    (∃ fault, setPop hooks w = (.error fault, w) ∧ ∀ restarts, removal hooks restarts w .pop = none) ∨
    (setPop hooks w = (.ok none, w) ∧ ∀ restarts, removal hooks restarts w .pop = none) ∨
    ∃ set value rest, w.object = some (.set set) ∧ set.entries = value :: rest ∧
      setPop hooks w = (dropTo hooks set rest >>= fun _ ↦ pure (some value)) w ∧
      ∀ restarts, removal hooks restarts w .pop = some (rest, w) := by
  by_cases hset : ∃ set, w.object = some (.set set)
  · obtain ⟨set, hset⟩ := hset
    cases hentries : set.entries with
    | nil =>
      have hpop : setPop hooks w = (.ok none, w) := by
        rw [setPop, bind_ok (setMut_set hset), hentries]
        rfl
      refine .inr (.inl ⟨hpop, fun restarts ↦ ?_⟩)
      simp only [removal, setMut_set hset, hentries, List.isEmpty_nil, if_true]
    | cons value rest =>
      refine .inr (.inr ⟨set, value, rest, hset, hentries, ?_, fun restarts ↦ ?_⟩)
      · rw [setPop, bind_ok (setMut_set hset), hentries, dropTo, bind_assoc]
      · simp only [removal, setMut_set hset, hentries, List.isEmpty_cons, Bool.false_eq_true, if_false,
          remaining, hset, List.eraseIdx_cons_zero]
  · have hne : ∀ set, w.object ≠ some (.set set) := fun set heq ↦ hset ⟨set, heq⟩
    refine .inl ⟨_, bind_error (setMut_ne_set hne), fun restarts ↦ ?_⟩
    simp only [removal, setMut_ne_set hne]

/-- The removal of an item: it fails before, finds nothing, or comes to the end of a removal. -/
theorem setRemove_cases (restarts : ℕ) (item : Option K) (hvalid : w.Valid) :
    (∃ fault w', setRemove hooks restarts item w = (.error fault, w') ∧ Atomic w w' ∧
      removal hooks restarts w (.remove item) = none) ∨
    (∃ w', setRemove hooks restarts item w = (.ok false, w') ∧
      removal hooks restarts w (.remove item) = none) ∨
    ∃ set buckets index w₁, w.object = some (.set set) ∧
      w₁.object = some (.set { set with buckets }) ∧ index < set.entries.length ∧
      setRemove hooks restarts item w =
        (dropTo hooks { set with buckets } (set.entries.eraseIdx index) >>= fun _ ↦ pure true) w₁ ∧
      removal hooks restarts w (.remove item) = some (set.entries.eraseIdx index, w₁) := by
  cases item with
  | none => exact .inl ⟨_, w, rfl, .inl rfl, rfl⟩
  | some item =>
    rcases hhash : hashSetElement hooks item w with ⟨fault | hash, w₁⟩
    · have hlocated : (hashSetElement hooks item >>= searchSet hooks restarts item) w =
          (.error fault, w₁) := bind_error hhash
      refine .inl ⟨fault, w₁, bind_error hhash, .inl ((keeps_hashSetElement hooks item).eq hhash), ?_⟩
      simp only [removal, hlocated]
    · have hsame := (keeps_hashSetElement hooks item).eq hhash
      have hlocated : (hashSetElement hooks item >>= searchSet hooks restarts item) w =
          searchSet hooks restarts item hash w₁ := bind_ok hhash
      unfold setRemove
      simp only
      rw [bind_ok hhash]
      rcases searchSet_valid (hvalid.of_object hsame) with
        ⟨fault, w₂, hsearch, hatomic⟩ | ⟨found, w₂, set, hsearch, hset, hgrown, hlt⟩
      · rw [hsearch] at hlocated
        refine .inl ⟨fault, w₂, bind_error hsearch, hatomic.of_object hsame, ?_⟩
        simp only [removal, hlocated]
      · rw [hsearch] at hlocated
        rw [bind_ok hsearch]
        cases found with
        | none =>
          refine .inr (.inl ⟨w₂, rfl, ?_⟩)
          simp only [removal, hlocated]
        | some index =>
          obtain ⟨buckets, hobject, -⟩ := hgrown
          refine .inr (.inr ⟨set, buckets, index, w₂, hsame ▸ hset, hobject, hlt index rfl, ?_, ?_⟩)
          · change (setMut >>= _) w₂ = _
            rw [bind_ok (setMut_set hobject), if_pos (hlt index rfl), dropTo, bind_assoc]
          · simp only [removal, hlocated, remaining, hobject]

omit [DecidableEq K] in
/-- The result of an operation is dropped. -/
theorem operate_of_eq {α : Type} {m : SetM σ K Unit} {m' : SetM σ K α} {a : α}
    (h : m' w = (m >>= fun _ ↦ pure a) w₁) : (m' >>= fun _ ↦ pure ()) w = m w₁ := by
  rcases hm : m w₁ with ⟨fault | _, w₂⟩
  · rw [bind_error hm] at h
    exact bind_error h
  · rw [bind_ok hm] at h
    exact bind_ok h

/-- Where an operation ends in a removal, it does so from a world with the same entries. -/
theorem operate_cases (restarts : ℕ) (operation : Operation K) (hvalid : w.Valid) :
    ((∀ fault w', operate hooks restarts operation w = (.error fault, w') → Atomic w w') ∧
      removal hooks restarts w operation = none) ∨
    ∃ set buckets rest w₁, w.object = some (.set set) ∧ rest.length < set.entries.length ∧
      removal hooks restarts w operation = some (rest, w₁) ∧
      operate hooks restarts operation w = dropTo hooks { set with buckets } rest w₁ := by
  have hdiscard {α : Type} {m : SetM σ K α} {w : World σ K} {fault : Fault} {w' : World σ K}
      (h : (m >>= fun _ ↦ pure ()) w = (.error fault, w')) : m w = (.error fault, w') := by
    rcases of_bind_error h with hm | ⟨_, _, _, hpure⟩
    · exact hm
    · cases hpure
  cases operation with
  | add item => exact .inl ⟨fun fault w' ↦ setAdd_error hvalid, rfl⟩
  | contains item => exact .inl ⟨fun fault w' h ↦ setContains_error hvalid (hdiscard h), rfl⟩
  | fillPrehashed elements =>
    refine .inl ⟨fun fault w' h ↦ ?_, rfl⟩
    by_cases hset : ∃ set, w.object = some (.set set)
    · obtain ⟨set, hset⟩ := hset
      exact absurd h (setFillPrehashed_ne_error hset)
    · have herror : setFillPrehashed elements w = (.error (.error "expected set object"), w) :=
        bind_error (setMut_ne_set fun set heq ↦ hset ⟨set, heq⟩)
      rw [operate, herror] at h
      cases h
      exact .inl rfl
  | pop =>
    rcases setPop_cases hooks w with
      ⟨fault, hpop, hnone⟩ | ⟨hpop, hnone⟩ | ⟨set, value, rest, hset, hentries, hpop, hsome⟩
    · refine .inl ⟨fun fault' w' h ↦ ?_, hnone restarts⟩
      have hsame := hpop.symm.trans (hdiscard h)
      cases hsame
      exact .inl rfl
    · refine .inl ⟨fun fault' w' h ↦ ?_, hnone restarts⟩
      have hsame := hpop.symm.trans (hdiscard h)
      cases hsame
    · refine .inr ⟨set, set.buckets, rest, w, hset, ?_, hsome restarts, ?_⟩
      · rw [hentries]
        exact Nat.lt_succ_self _
      · exact operate_of_eq hpop
  | remove item =>
    rcases setRemove_cases restarts item hvalid with
      ⟨fault, w₁, hremove, hatomic, hnone⟩ | ⟨w₁, hremove, hnone⟩ |
        ⟨set, buckets, index, w₁, hset, -, hlt, hremove, hsome⟩
    · refine .inl ⟨fun fault' w' h ↦ ?_, hnone⟩
      have hsame := hremove.symm.trans (hdiscard h)
      cases hsame
      exact hatomic
    · refine .inl ⟨fun fault' w' h ↦ ?_, hnone⟩
      have hsame := hremove.symm.trans (hdiscard h)
      cases hsame
    · refine .inr ⟨set, buckets, _, w₁, hset, ?_, hsome, operate_of_eq hremove⟩
      rw [List.length_eraseIdx, if_pos hlt]
      omega

/-- An operation that fails leaves the entries as they were and a table that refers to exactly them, if
and only if the elements that remain after a removal can be hashed. -/
theorem set_error_atomic (hooks : Hooks σ K) (restarts : ℕ) (operation : Operation K)
    (hvalid : w.Valid) :
    (∀ fault w', operate hooks restarts operation w = (.error fault, w') → Atomic w w') ↔
      ∀ rest w₁, removal hooks restarts w operation = some (rest, w₁) →
        ∃ w₂, hashAll hooks rest w₁ = (.ok (), w₂) := by
  rcases operate_cases restarts operation hvalid with
    ⟨hatomic, hnone⟩ | ⟨set, buckets, rest, w₁, hset, hlt, hsome, hoperate⟩
  · rw [hnone]
    exact ⟨fun _ ↦ nofun, fun _ ↦ hatomic⟩
  · obtain ⟨hfail, hdone⟩ := dropTo_spec hooks w₁ { set with buckets } rest
    rw [hoperate]
    constructor
    · intro hatomic rest' w₁' hremoval
      obtain ⟨rfl, rfl⟩ := Prod.mk.inj (Option.some.inj (hsome.symm.trans hremoval))
      rcases hhash : hashAll hooks rest w₁ with ⟨fault | _, w₂⟩
      · have hlength := (hatomic fault _ (hfail fault w₂ hhash)).length_eq hset rfl
        exact absurd hlength (Nat.ne_of_lt hlt)
      · exact ⟨w₂, rfl⟩
    · intro hhashed fault w' herror
      obtain ⟨w₂, hhash⟩ := hhashed rest w₁ hsome
      obtain ⟨w'', hok⟩ := hdone w₂ hhash
      rw [hok] at herror
      cases herror

end Operations

/-! ## A pop that fails -/

/-- Elements whose hash is refused once the state says so. -/
def refusingHooks : Hooks Bool ℕ where
  hashObject element refuses :=
    (if refuses then .error "no hash" else .ok (BitVec.ofNat 64 element), refuses)
  typeName _ := some "int"
  objectEqual left right refuses := (.ok (decide (left = right)), refuses)

/-- Two elements with their table. -/
def twoElements : PySet ℕ where
  entries := [1, 2]
  buckets := [none, some 0, some 1, none, none, none, none, none]

theorem twoElements_valid (refuses : Bool) :
    World.Valid { hooks := refuses, object := some (.set twoElements) } := by
  have hbuild : buildBuckets refusingHooks [1, 2] { hooks := false, object := none } =
      (.ok twoElements.buckets, { hooks := false, object := none }) := rfl
  intro object hobject
  obtain rfl := Option.some.inj hobject
  exact .inr (buildBuckets_indexes hbuild)

/-- The element that remains cannot be hashed: the other one is gone, and the table refers to an entry
that does not exist. -/
theorem pop_not_atomic :
    World.Valid { hooks := true, object := some (.set twoElements) } ∧
    ∃ w', operate refusingHooks 1 .pop { hooks := true, object := some (.set twoElements) } =
        (.error (.error "no hash"), w') ∧
      w'.object = some (.set { entries := [2], buckets := twoElements.buckets }) ∧
      ¬RefersExactly 1 twoElements.buckets ∧
      ¬Atomic { hooks := true, object := some (.set twoElements) } w' := by
  refine ⟨twoElements_valid true, _, rfl, rfl, fun hrefers ↦ ?_, fun hatomic ↦ ?_⟩
  · exact absurd (hrefers 1) (by decide)
  · exact absurd (hatomic.length_eq rfl rfl) (by decide)

/-- An element that cannot be hashed is not added. -/
theorem set_error_atomic_add :
    ∃ w', operate refusingHooks 1 (.add (some 3)) { hooks := true, object := some (.set twoElements) } =
        (.error (.error "no hash"), w') ∧
      Atomic { hooks := true, object := some (.set twoElements) } w' := by
  refine ⟨_, rfl, (set_error_atomic refusingHooks 1 (.add (some 3)) (twoElements_valid true)).mpr ?_ _ _ rfl⟩
  intro rest w₁ hremoval
  cases hremoval

end Pon.Set.Hooked
