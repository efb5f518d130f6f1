import Pon.Dict.Refinement
import Pon.Lib.OrderedSet
import Pon.Set.Storage

/-!
# The bucket table of a set

Elements have a fixed hash and are compared by an equivalence that implies equal hashes. Then the
three ways of filling a table index the entries, and both probes answer as the linear scan does. A
set that was built from its entries alone has no table; the first probe builds one.
-/

namespace Pon.Set

open Dict (Fault bucketCapacity bucketIndex nextBucket lt_bucketCapacity bucketCapacity_eq_pow
  slot_zero_bucketIndex nextBucket_slot)
open Probing

variable {K : Type*}

/-- Elements are compared by the equivalence, which implies equal hashes. -/
structure LawfulElements [Setoid K] [∀ a b : K, Decidable (a ≈ b)] (ops : ElementOps K) : Prop where
  decides : ∀ a b, ops.objectEqual a b = .ok (decide (a ≈ b))
  hash_eq : ∀ a b, a ≈ b → ops.hashObject a = ops.hashObject b

/-- The hash of an element that has one. -/
def elementHash (ops : ElementOps K) (element : K) : BitVec 64 :=
  (ops.hashObject element).toOption.getD 0

def Hashable (ops : ElementOps K) (element : K) : Prop :=
  ops.hashObject element = .ok (elementHash ops element)

variable {ops : ElementOps K} {hash : BitVec 64} {buckets : List (Option ℕ)}

theorem hashable_of_ok {element : K} (h : ops.hashObject element = .ok hash) :
    Hashable ops element := by
  simp [Hashable, elementHash, h, Except.toOption]

theorem hashSetElement_ok {item : K} :
    hashSetElement ops (some item) = .ok hash ↔ ops.hashObject item = .ok hash := by
  cases hobject : ops.hashObject item with
  | ok value => simp only [hashSetElement, hobject, Except.ok.injEq]
  | error message =>
    simp only [hashSetElement, hobject]
    split <;> exact iff_of_false nofun nofun

theorem Hashable.hashSetElement {element : K} (h : Hashable ops element) :
    hashSetElement ops (some element) = .ok (elementHash ops element) :=
  hashSetElement_ok.mpr h

section Compare

variable [Setoid K] [∀ a b : K, Decidable (a ≈ b)] {ops : ElementOps K}

section

variable (hlaw : LawfulElements ops)
include hlaw

theorem LawfulElements.objectEqual (a b : K) :
    objectEqual ops a b = .ok (decide (a ≈ b)) := by
  rw [Set.objectEqual, hlaw.decides]
  rfl

/-- Comparing the hashes first does not change the answer. -/
theorem LawfulElements.candidateMatches {entry item : K}
    (hentry : Hashable ops entry) (hitem : ops.hashObject item = .ok hash) :
    candidateMatches ops entry item hash = .ok (decide (entry ≈ item)) := by
  simp only [Set.candidateMatches, hentry.hashSetElement, hlaw.objectEqual]
  split
  · rfl
  · rename_i hne
    have hfalse : ¬ entry ≈ item := by
      intro heq
      have hsame := hlaw.hash_eq _ _ heq
      rw [hentry, hitem] at hsame
      exact hne (Except.ok.inj hsame)
    simp [hfalse]

theorem findElementIndex_eq (item : K) (entries : List K) :
    findElementIndex ops item entries = .ok (entries.findIdx? fun entry ↦ decide (entry ≈ item)) := by
  induction entries with
  | nil => rfl
  | cons entry rest ih =>
    simp only [findElementIndex, hlaw.objectEqual, ih, List.findIdx?_cons]
    by_cases heq : entry ≈ item
    · simp [heq]
    · simp [heq, Except.map]

/-- The linear scan decides membership. -/
theorem findElementIndex_isSome (item : K) (s : OrderedSet K) :
    (findElementIndex ops item s.entries).map Option.isSome = .ok (decide (item ∈ s)) := by
  rw [findElementIndex_eq hlaw]
  simp [Except.map, OrderedSet.mem_iff, List.findIdx?_isSome, List.any_eq]

end

theorem isSome_findIdx (item : K) (s : OrderedSet K) :
    (s.entries.findIdx? fun entry ↦ decide (entry ≈ item)).isSome = decide (item ∈ s) := by
  simp [OrderedSet.mem_iff, List.findIdx?_isSome, List.any_eq]

/-- The subset scan decides the inclusion of the element sets. -/
theorem entriesSubset_eq (hlaw : LawfulElements ops) (s t : OrderedSet K) :
    entriesSubset ops t.entries s.entries = .ok (decide (s.elements ⊆ t.elements)) := by
  have hscan : ∀ left : List K,
      entriesSubset ops t.entries left = .ok (decide (∀ x ∈ left, x ∈ t)) := by
    intro left
    induction left with
    | nil => simp [entriesSubset]
    | cons item left ih =>
      have hsome := isSome_findIdx item t
      simp only [entriesSubset, findElementIndex_eq hlaw]
      cases hfind : t.entries.findIdx? (fun entry ↦ decide (entry ≈ item)) with
      | none =>
        rw [hfind] at hsome
        have hmem : item ∉ t := of_decide_eq_false hsome.symm
        simp [hmem]
      | some index =>
        rw [hfind] at hsome
        have hmem : item ∈ t := of_decide_eq_true hsome.symm
        simp [hmem, ih]
  rw [hscan]
  simp only [OrderedSet.elements_subset]

theorem entriesWhere_eq (hlaw : LawfulElements ops) (present : Bool) (t : OrderedSet K)
    (left : List K) :
    entriesWhere ops t.entries present left = .ok (left.filter fun x ↦ decide (x ∈ t) = present) := by
  induction left with
  | nil => rfl
  | cons item left ih =>
    simp only [entriesWhere, findElementIndex_eq hlaw, ih, isSome_findIdx, Except.map,
      List.filter_cons, decide_eq_true_eq]

end Compare

/-- Home bucket of the entry at `index` in a table of `size` buckets. -/
def home (ops : ElementOps K) (entries : List K) (size index : ℕ) : ℕ :=
  (entries[index]?.map fun entry ↦ bucketIndex (elementHash ops entry) size).getD 0

/-- The table is built and indexes the entries. -/
structure Built (ops : ElementOps K) (entries : List K) (buckets : List (Option ℕ)) : Prop where
  power_of_two : ∃ k, buckets.length = 2 ^ k
  indexed : Indexed (home ops entries buckets.length) entries.length buckets
  room : entries.length < buckets.length

theorem Built.ne_nil {entries : List K} (h : Built ops entries buckets) : buckets ≠ [] :=
  List.ne_nil_of_length_pos (Nat.zero_lt_of_lt h.room)

theorem probeVacant_of_firstVacant {start d : ℕ} (hsize : ∃ k, buckets.length = 2 ^ k)
    (hd : FirstVacant buckets start d) :
    probeVacant buckets buckets.length (slot buckets.length start 0) =
      .ok (some (slot buckets.length start d)) := by
  apply hd.search (motive := fun c rounds ↦ probeVacant buckets rounds (slot buckets.length start c) = _)
  · intro rounds
    rw [probeVacant, hd.vacant]
  · intro c rounds j _ hj hnext
    rw [probeVacant, hj, ← hnext, ← nextBucket_slot hsize]

theorem probeVacant_indexed {homes : ℕ → ℕ} {n : ℕ} (hsize : ∃ k, buckets.length = 2 ^ k)
    (hroom : n < buckets.length) (hhome : homes n = bucketIndex hash buckets.length)
    (h : Indexed homes n buckets) :
    ∃ bucket, probeVacant buckets buckets.length (bucketIndex hash buckets.length) =
        .ok (some bucket) ∧ Indexed homes (n + 1) (buckets.set bucket (some n)) := by
  obtain ⟨d, hd⟩ := exists_firstVacant (h.none_mem hroom) (homes n)
  refine ⟨slot buckets.length (homes n) d, ?_, h.place hd⟩
  have hprobe := probeVacant_of_firstVacant hsize hd
  rw [hhome, slot_zero_bucketIndex hsize] at hprobe
  rw [hhome, hprobe]

/-- A step that puts index `n` into a table which holds the indices below. -/
def Places (ops : ElementOps K) (entries : List K)
    (place : List (Option ℕ) → ℕ → Except Fault (List (Option ℕ))) : Prop :=
  ∀ (buckets : List (Option ℕ)) (n : ℕ), (∃ k, buckets.length = 2 ^ k) → n < entries.length →
    n < buckets.length → Indexed (home ops entries buckets.length) n buckets →
    ∃ buckets', place buckets n = .ok buckets' ∧ buckets'.length = buckets.length ∧
      Indexed (home ops entries buckets'.length) (n + 1) buckets'

section Places

variable {ops : ElementOps K} {entries : List K}

theorem home_of_getElem? {entry : K} {n : ℕ} (h : entries[n]? = some entry) (size : ℕ) :
    home ops entries size n = bucketIndex (elementHash ops entry) size := by
  rw [home, h]
  rfl

theorem insertBucketHashed_places {n : ℕ} {entry : K}
    (hget : entries[n]? = some entry) (hsize : ∃ k, buckets.length = 2 ^ k)
    (hroom : n < buckets.length) (h : Indexed (home ops entries buckets.length) n buckets) :
    ∃ buckets', insertBucketHashed buckets (elementHash ops entry) n = .ok buckets' ∧
      buckets'.length = buckets.length ∧
      Indexed (home ops entries buckets'.length) (n + 1) buckets' := by
  obtain ⟨bucket, hprobe, hindexed⟩ := probeVacant_indexed hsize hroom (home_of_getElem? hget _) h
  have hne : buckets ≠ [] := List.ne_nil_of_length_pos (by omega)
  refine ⟨buckets.set bucket (some n), ?_, List.length_set, ?_⟩
  · simp [insertBucketHashed, hne, hprobe]
  · rwa [List.length_set]

theorem insertBucket_places (hhashed : ∀ entry ∈ entries, Hashable ops entry) :
    Places ops entries (insertBucket ops entries) := by
  intro buckets n hsize hn hroom h
  have hget : entries[n]? = some entries[n] := List.getElem?_eq_getElem hn
  have hhash := (hhashed _ (List.getElem_mem hn)).hashSetElement
  simp only [insertBucket, hget, hhash]
  exact insertBucketHashed_places hget hsize hroom h

theorem placeIndex_places (hhashed : ∀ entry ∈ entries, Hashable ops entry) :
    Places ops entries (placeIndex ops entries) := by
  intro buckets n hsize hn hroom h
  have hget : entries[n]? = some entries[n] := List.getElem?_eq_getElem hn
  have hhash := (hhashed _ (List.getElem_mem hn)).hashSetElement
  obtain ⟨bucket, hprobe, hindexed⟩ := probeVacant_indexed hsize hroom (home_of_getElem? hget _) h
  refine ⟨buckets.set bucket (some n), ?_, List.length_set, ?_⟩
  · simp [placeIndex, hget, hhash, hprobe]
  · rwa [List.length_set]

theorem Places.built {place : List (Option ℕ) → ℕ → Except Fault (List (Option ℕ))}
    (hplace : Places ops entries place) {capacity : ℕ} (hsize : ∃ k, capacity = 2 ^ k)
    (hroom : entries.length < capacity) :
    ∃ buckets, (List.range entries.length).foldlM place (List.replicate capacity none) =
        .ok buckets ∧ buckets.length = capacity ∧ Built ops entries buckets := by
  obtain ⟨buckets, hfold, rfl, hindexed⟩ := 
      Indexed.fill (home ops entries capacity) entries.length capacity place fun buckets m hlen hm hindexed ↦ by
    subst hlen
    obtain ⟨buckets', hstep, hlen, hindexed'⟩ := hplace buckets m hsize hm (by omega) hindexed
    exact ⟨buckets', hstep, hlen, hlen ▸ hindexed'⟩
  exact ⟨buckets, hfold, rfl, hsize, hindexed, hroom⟩

end Places

/-- The entries of a storage can be hashed, and its table is missing or indexes them. -/
structure Stored (ops : ElementOps K) (entries : List K) (buckets : List (Option ℕ)) : Prop where
  hashed : ∀ entry ∈ entries, Hashable ops entry
  table : buckets = [] ∨ Built ops entries buckets

section Ensure

variable {ops : ElementOps K} (set : PySet K)

section

variable (hhashed : ∀ entry ∈ set.entries, Hashable ops entry)
include hhashed

theorem rebuildSetBucketsWithCapacity_built {capacity : ℕ}
    (hsize : ∃ k, capacity = 2 ^ k) (hroom : set.entries.length < capacity) :
    ∃ buckets, rebuildSetBucketsWithCapacity ops set capacity = .ok { set with buckets } ∧
      buckets.length = capacity ∧ Built ops set.entries buckets := by
  obtain ⟨buckets, hfold, hlen, hbuilt⟩ := (insertBucket_places hhashed).built hsize hroom
  exact ⟨buckets, by simp [rebuildSetBucketsWithCapacity, hfold, Except.map], hlen, hbuilt⟩

theorem rebuildSetBuckets_built :
    ∃ buckets, rebuildSetBuckets ops set = .ok { set with buckets } ∧
      Built ops set.entries buckets := by
  obtain ⟨buckets, heq, _, hbuilt⟩ := rebuildSetBucketsWithCapacity_built set hhashed
    (bucketCapacity_eq_pow set.entries.length) (lt_bucketCapacity _)
  exact ⟨buckets, heq, hbuilt⟩

end

theorem ensureSetBuckets_built {set : PySet K} (h : Stored ops set.entries set.buckets) :
    ∃ buckets, ensureSetBuckets ops set = .ok { set with buckets } ∧ Built ops set.entries buckets := by
  unfold ensureSetBuckets
  split
  · exact rebuildSetBuckets_built set h.hashed
  · rename_i hlarge
    rcases h.table with hempty | hbuilt
    · have := lt_bucketCapacity set.entries.length
      simp [hempty] at hlarge
      omega
    · exact ⟨set.buckets, rfl, hbuilt⟩

/-- Before an insertion the table is grown so that the new index leaves a bucket empty. -/
theorem ensureSetInsertCapacity_built (hhashed : ∀ entry ∈ set.entries, Hashable ops entry)
    (h : Built ops set.entries set.buckets) :
    ∃ buckets, ensureSetInsertCapacity ops set = .ok { set with buckets } ∧
      Built ops set.entries buckets ∧ set.entries.length + 1 < buckets.length := by
  unfold ensureSetInsertCapacity
  simp only [ge_iff_le]
  split
  · obtain ⟨buckets, heq, hlen, hbuilt⟩ := rebuildSetBucketsWithCapacity_built set hhashed
      (bucketCapacity_eq_pow (set.entries.length + 1))
      (lt_trans (Nat.lt_succ_self _) (lt_bucketCapacity _))
    exact ⟨buckets, heq, hbuilt, hlen ▸ lt_bucketCapacity _⟩
  · exact ⟨set.buckets, rfl, h, by omega⟩

/-- A frozenset has a table after the first probe, unless it is empty. -/
theorem ensureFrozensetBuckets_stored {set : PyFrozenSet K}
    (h : Stored ops set.entries set.buckets) :
    ∃ buckets, ensureFrozensetBuckets ops set = .ok { set with buckets } ∧
      Stored ops set.entries buckets ∧ (buckets = [] → set.entries = []) := by
  unfold ensureFrozensetBuckets
  split
  · rename_i hskip
    refine ⟨set.buckets, rfl, h, fun hempty ↦ ?_⟩
    simpa [hempty] using hskip
  · obtain ⟨buckets, hfold, _, hbuilt⟩ := (placeIndex_places h.hashed).built
      (bucketCapacity_eq_pow set.entries.length) (lt_bucketCapacity _)
    refine ⟨buckets, by simp [buildBuckets, hfold, Except.map], ⟨h.hashed, Or.inr hbuilt⟩, ?_⟩
    intro hempty
    exact absurd hempty hbuilt.ne_nil

end Ensure

/-- A search lists entries, and every index on the way to the vacant bucket. -/
theorem collectCandidates_spec {set : PySet K} (hbuilt : Built ops set.entries set.buckets)
    {start d : ℕ} (hd : FirstVacant set.buckets start d) :
    ∃ candidates,
      collectCandidates set set.buckets.length (slot set.buckets.length start 0) = .ok candidates ∧
      (∀ candidate ∈ candidates, set.entries[candidate.1]? = some candidate.2) ∧
      ∀ i, Met set.buckets start d 0 i → ∃ entry, (i, entry) ∈ candidates := by
  apply hd.search (motive := fun c rounds ↦ ∃ candidates,
    collectCandidates set rounds (slot set.buckets.length start c) = .ok candidates ∧
      (∀ candidate ∈ candidates, set.entries[candidate.1]? = some candidate.2) ∧
      ∀ i, Met set.buckets start d c i → ∃ entry, (i, entry) ∈ candidates)
  · intro rounds
    refine ⟨[], ?_, by simp, fun i hi ↦ absurd hi not_met⟩
    rw [collectCandidates, hd.vacant]
  · rintro c rounds index _ hindex ⟨candidates, hrun, hentries, hmet⟩
    have hindexlt : index < set.entries.length := hbuilt.indexed.index_lt hindex
    have hget : set.entries[index]? = some set.entries[index] := List.getElem?_eq_getElem hindexlt
    rw [← nextBucket_slot hbuilt.power_of_two] at hrun
    refine ⟨(index, set.entries[index]) :: candidates, ?_, ?_, ?_⟩
    · rw [collectCandidates, hindex]
      simp [hget, hrun, Except.map]
    · intro candidate hcandidate
      rcases List.mem_cons.mp hcandidate with rfl | hrest
      · exact hget
      · exact hentries candidate hrest
    · intro i hi
      obtain rfl | hlater := hi.step hindex
      · exact ⟨_, List.mem_cons_self⟩
      · obtain ⟨entry, hentry⟩ := hmet i hlater
        exact ⟨entry, List.mem_cons_of_mem _ hentry⟩

/-- The entry at `index` is equal to `item`. -/
def Matches [Setoid K] (entries : List K) (item : K) (index : ℕ) : Prop :=
  ∃ entry, entries[index]? = some entry ∧ entry ≈ item

section Probe

variable [Setoid K] [∀ a b : K, Decidable (a ≈ b)] {ops : ElementOps K} {item : K} {hash : BitVec 64}

omit [∀ a b : K, Decidable (a ≈ b)] in
theorem exists_matches {s : OrderedSet K} : (∃ i, Matches s.entries item i) ↔ item ∈ s := by
  constructor
  · rintro ⟨i, entry, hget, heq⟩
    exact ⟨entry, List.mem_of_getElem? hget, heq⟩
  · rintro ⟨entry, hmem, heq⟩
    obtain ⟨i, hi⟩ := List.getElem?_of_mem hmem
    exact ⟨i, entry, hi, heq⟩

/-- An entry equal to the item has its hash, so a search for it meets the entry. -/
theorem Built.met {entries : List K} (h : Built ops entries buckets)
    (hlaw : LawfulElements ops) (hitem : ops.hashObject item = .ok hash) {d i : ℕ}
    (hd : FirstVacant buckets (bucketIndex hash buckets.length) d)
    (hmatch : Matches entries item i) : Met buckets (bucketIndex hash buckets.length) d 0 i := by
  obtain ⟨entry, hget, heq⟩ := hmatch
  have hi : i < entries.length := (List.getElem?_eq_some_iff.mp hget).1
  have hsame : elementHash ops entry = hash := by
    simp [elementHash, hlaw.hash_eq _ _ heq, hitem, Except.toOption]
  have hhome : home ops entries buckets.length i = bucketIndex hash buckets.length := by
    rw [home_of_getElem? hget, hsame]
  have hmet := h.indexed.met_before_vacant hi (hhome ▸ hd)
  rwa [hhome] at hmet

variable (hlaw : LawfulElements ops)
include hlaw

/-- The deferred pass finds a matching candidate if there is one, without a restart. -/
theorem verifyCandidates_spec [DecidableEq K] {set : PySet K}
    (hhashed : ∀ entry ∈ set.entries, Hashable ops entry)
    (hitem : ops.hashObject item = .ok hash) (candidates : List (ℕ × K))
    (hcandidates : ∀ candidate ∈ candidates, set.entries[candidate.1]? = some candidate.2) :
    ∃ found, verifyCandidates ops set (setWitness set) item hash candidates =
        .ok (some found) ∧
      (∀ i, found = some i → Matches set.entries item i) ∧
      (found = none → ∀ candidate ∈ candidates, ¬ candidate.2 ≈ item) := by
  induction candidates with
  | nil => exact ⟨none, rfl, by simp, by simp⟩
  | cons candidate rest ih =>
    obtain ⟨index, entry⟩ := candidate
    have hget : set.entries[index]? = some entry := hcandidates (index, entry) (by simp)
    by_cases hsame : entry = item
    · refine ⟨some index, by simp [verifyCandidates, hsame], ?_, by simp⟩
      rintro i ⟨⟩
      exact ⟨entry, hget, hsame ▸ Setoid.refl entry⟩
    · have hmatches := hlaw.candidateMatches (hhashed entry (List.mem_of_getElem? hget)) hitem
      by_cases heq : entry ≈ item
      · refine ⟨some index, by simp [verifyCandidates, hsame, hmatches, heq, hget], ?_, by simp⟩
        rintro i ⟨⟩
        exact ⟨entry, hget, heq⟩
      · obtain ⟨found, hrun, hfound, hnone⟩ :=
          ih fun candidate hcandidate ↦ hcandidates candidate (by simp [hcandidate])
        refine ⟨found, by simpa [verifyCandidates, hsame, hmatches, heq] using hrun, hfound, ?_⟩
        intro hf candidate hcandidate
        rcases List.mem_cons.mp hcandidate with rfl | hrest
        · exact heq
        · exact hnone hf candidate hrest

/-- A search of a built table returns a matching index if there is one. -/
theorem findSetIndex_spec [DecidableEq K] (set : PySet K)
    (hhashed : ∀ entry ∈ set.entries, Hashable ops entry)
    (hitem : ops.hashObject item = .ok hash) (hbuilt : Built ops set.entries set.buckets)
    (restarts : ℕ) :
    ∃ found, findSetIndex ops set item hash (restarts + 1) = .ok found ∧
      (∀ i, found = some i → Matches set.entries item i) ∧
      (found = none → ∀ i, ¬ Matches set.entries item i) := by
  obtain ⟨d, hd⟩ := exists_firstVacant (hbuilt.indexed.none_mem hbuilt.room)
    (bucketIndex hash set.buckets.length)
  obtain ⟨candidates, hcollect, hentries, hmet⟩ := collectCandidates_spec hbuilt hd
  rw [slot_zero_bucketIndex hbuilt.power_of_two] at hcollect
  have hlisted : ∀ i, Matches set.entries item i →
      ∃ entry, (i, entry) ∈ candidates ∧ entry ≈ item := by
    intro i hmatch
    obtain ⟨entry, hmem⟩ := hmet i (hbuilt.met hlaw hitem hd hmatch)
    obtain ⟨entry', hget, heq⟩ := hmatch
    have hsame : entry' = entry := Option.some_inj.mp (hget.symm.trans (hentries _ hmem))
    exact ⟨entry, hmem, hsame ▸ heq⟩
  rw [findSetIndex]
  simp only [List.isEmpty_iff, hbuilt.ne_nil, if_false, hcollect]
  by_cases hempty : candidates = []
  · refine ⟨none, by simp [hempty], by simp, fun _ i hmatch ↦ ?_⟩
    obtain ⟨entry, hmem, _⟩ := hlisted i hmatch
    simp [hempty] at hmem
  · obtain ⟨found, hverify, hfound, hnone⟩ :=
      verifyCandidates_spec hlaw hhashed hitem candidates hentries
    refine ⟨found, by simp [hempty, hverify], hfound, fun hf i hmatch ↦ ?_⟩
    obtain ⟨entry, hmem, heq⟩ := hlisted i hmatch
    exact hnone hf _ hmem heq

theorem frozensetProbe_spec (set : PyFrozenSet K)
    (hhashed : ∀ entry ∈ set.entries, Hashable ops entry)
    (hitem : ops.hashObject item = .ok hash) (hbuilt : Built ops set.entries set.buckets)
    {start d : ℕ} (hd : FirstVacant set.buckets start d) :
    ∃ found, frozensetProbe ops set item hash set.buckets.length (slot set.buckets.length start 0) =
        .ok found ∧
      (found = true → ∃ i, Matches set.entries item i) ∧
      (found = false → ∀ i, Met set.buckets start d 0 i → ¬ Matches set.entries item i) := by
  apply hd.search (motive := fun c rounds ↦ ∃ found,
    frozensetProbe ops set item hash rounds (slot set.buckets.length start c) = .ok found ∧
      (found = true → ∃ i, Matches set.entries item i) ∧
      (found = false → ∀ i, Met set.buckets start d c i → ¬ Matches set.entries item i))
  · intro rounds
    refine ⟨false, ?_, by simp, fun _ i hi ↦ absurd hi not_met⟩
    rw [frozensetProbe, hd.vacant]
  · rintro c rounds index _ hindex ⟨found, hrun, hfound, hnone⟩
    have hindexlt : index < set.entries.length := hbuilt.indexed.index_lt hindex
    have hget : set.entries[index]? = some set.entries[index] := List.getElem?_eq_getElem hindexlt
    have hmatches := hlaw.candidateMatches (hhashed _ (List.getElem_mem hindexlt)) hitem
    rw [frozensetProbe, hindex]
    simp only [hget, hmatches]
    by_cases heq : set.entries[index] ≈ item
    · exact ⟨true, by simp [heq], fun _ ↦ ⟨index, _, hget, heq⟩, by simp⟩
    · rw [← nextBucket_slot hbuilt.power_of_two] at hrun
      refine ⟨found, by simpa [heq] using hrun, hfound, fun hf i hi hmatch ↦ ?_⟩
      obtain rfl | hlater := hi.step hindex
      · obtain ⟨entry, hentry, heq'⟩ := hmatch
        rw [hget] at hentry
        exact heq (Option.some_inj.mp hentry ▸ heq')
      · exact hnone hf i hlater hmatch

end Probe

end Pon.Set
