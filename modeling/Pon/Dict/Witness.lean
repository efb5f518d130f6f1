import Mathlib.Data.List.Induction
import Mathlib.Logic.Relation
import Pon.Dict.Refinement
import Pon.Dict.Reentrant

/-!
# The storage witness

A lookup answers for the table as it is when it returns, unless a call of `__eq__` replaced keys and
gave the table back with the lengths and the addresses that it had. Nothing is assumed about
`__eq__`: it may answer differently each time, and it may change the dict in any way.
-/

namespace Pon.Dict.Reentrant

open Probing Stateful Comp

variable {K V : Type}

/-- The keys of a dict in insertion order, with the hashes that they were inserted under. -/
def keyStructure (storage : Placed K V) : List (K × BitVec 64) :=
  storage.dict.entries.map fun entry ↦ (entry.key, entry.hash)

/-- The table is empty, as in a new or a cleared dict, or it is built. -/
def Placed.Table (storage : Placed K V) : Prop :=
  storage.dict.entries = [] ∧ storage.dict.buckets = [] ∨ Built storage.dict

/-! ## Changes of the storage -/

section Changes

variable {storage storage' : Placed K V}

/-- A rebuild replaces the table and nothing else. -/
structure Rebuilt (storage storage' : Placed K V) : Prop where
  built : Built storage'.dict
  entries : storage'.dict.entries = storage.dict.entries
  moved : storage'.bucketsPtr ≠ storage.bucketsPtr

variable {bucketsPtr index : ℕ} {value : V} {mutation : Mutation K V}
  {mutations : List (Mutation K V)}

theorem rebuilt_of_ok {capacity : ℕ} (hsize : ∃ k, capacity = 2 ^ k)
    (hroom : storage.dict.entries.length < capacity)
    (h : rebuildDictBucketsWithCapacity storage capacity bucketsPtr = .ok storage') :
    Rebuilt storage storage' ∧ storage'.dict.buckets.length = capacity := by
  obtain ⟨buckets, hrebuild, hlength, hbuilt⟩ := rebuild_built storage.dict hsize hroom
  unfold rebuildDictBucketsWithCapacity at h
  rw [hrebuild] at h
  split at h
  · cases h
  · rename_i hmoved
    cases h
    exact ⟨⟨hbuilt, rfl, hmoved⟩, hlength⟩

theorem rebuildDictBuckets_rebuilt (h : rebuildDictBuckets storage bucketsPtr = .ok storage') :
    Rebuilt storage storage' :=
  (rebuilt_of_ok (bucketCapacity_eq_pow _) (lt_bucketCapacity _) h).1

theorem ensureDictBuckets_cases (htable : storage.Table)
    (h : ensureDictBuckets storage bucketsPtr = .ok storage') :
    Built storage'.dict ∧ (Rebuilt storage storage' ∨ storage' = storage) := by
  unfold ensureDictBuckets at h
  split at h
  · have hrebuilt := rebuildDictBuckets_rebuilt h
    exact ⟨hrebuilt.built, .inl hrebuilt⟩
  · rename_i hlarge
    cases h
    rcases htable with ⟨_, hempty⟩ | hbuilt
    · have := eight_le_bucketCapacity storage.dict.entries.length
      rw [hempty, List.length_nil] at hlarge
      omega
    · exact ⟨hbuilt, .inr rfl⟩

theorem ensureDictInsertCapacity_cases (htable : storage.Table)
    (h : ensureDictInsertCapacity storage bucketsPtr = .ok storage') :
    Built storage'.dict ∧ storage'.dict.entries.length + 1 < storage'.dict.buckets.length ∧
      (Rebuilt storage storage' ∨ storage' = storage) := by
  unfold ensureDictInsertCapacity at h
  simp only [ge_iff_le] at h
  split at h
  · obtain ⟨hrebuilt, hlength⟩ := rebuilt_of_ok (bucketCapacity_eq_pow _)
      (lt_trans (Nat.lt_succ_self _) (lt_bucketCapacity _)) h
    refine ⟨hrebuilt.built, ?_, .inl hrebuilt⟩
    rw [hlength, hrebuilt.entries]
    exact lt_bucketCapacity _
  · rename_i hlarge
    cases h
    rcases htable with ⟨_, hempty⟩ | hbuilt
    · rw [hempty, List.length_nil] at hlarge
      omega
    · exact ⟨hbuilt, by omega, .inr rfl⟩

/-- Appending adds one key and leaves the table where it is, or builds a new one. -/
theorem appendEntry_cases {entry : DictEntry K V} {entriesPtr : ℕ} (htable : storage.Table)
    (h : appendEntry storage entry bucketsPtr entriesPtr = .ok storage') :
    Built storage'.dict ∧ storage'.dict.entries = storage.dict.entries ++ [entry] ∧
      (storage'.bucketsPtr ≠ storage.bucketsPtr ∨ Built storage.dict) := by
  unfold appendEntry at h
  split at h
  · cases h
  · rename_i grown hgrown
    obtain ⟨hbuilt, hroom, hcases⟩ := ensureDictInsertCapacity_cases htable hgrown
    have hentries : grown.dict.entries = storage.dict.entries := by
      rcases hcases with hrebuilt | rfl
      · exact hrebuilt.entries
      · rfl
    have hhome : Indexed (home (grown.dict.entries ++ [entry]) grown.dict.buckets.length)
        grown.dict.entries.length grown.dict.buckets := by
      apply hbuilt.indexed.congr
      intro i hi
      simp only [home, List.getElem?_append_left hi]
    obtain ⟨buckets, hinsert, hlength, hindexed⟩ := insertBucket_indexed hbuilt.power_of_two
      (by simp only [List.length_append, List.length_singleton]; omega) hbuilt.room hhome
    simp only [hinsert] at h
    cases h
    refine ⟨⟨?_, ?_, ?_⟩, ?_, ?_⟩
    · rw [hlength]
      exact hbuilt.power_of_two
    · rw [List.length_append]
      exact hindexed
    · change (grown.dict.entries ++ [entry]).length < buckets.length
      rw [List.length_append, List.length_singleton, hlength]
      exact hroom
    · change grown.dict.entries ++ [entry] = _
      rw [hentries]
    · rcases hcases with hrebuilt | rfl
      · exact .inl hrebuilt.moved
      · exact .inr hbuilt

section

variable (h : overwriteEntry storage index value = .ok storage')
include h

theorem overwriteEntry_cases :
    ∃ entry, storage.dict.entries[index]? = some entry ∧
      storage' = { storage with dict := { storage.dict with
        entries := storage.dict.entries.set index { entry with value } } } := by
  unfold overwriteEntry at h
  split at h
  · cases h
  · rename_i entry hentry
    cases h
    exact ⟨entry, hentry, rfl⟩

theorem keyStructure_overwriteEntry :
    keyStructure storage' = keyStructure storage := by
  obtain ⟨entry, hentry, rfl⟩ := overwriteEntry_cases h
  obtain ⟨hindex, hget⟩ := List.getElem?_eq_some_iff.mp hentry
  apply List.ext_getElem
  · simp [keyStructure]
  · intro i _ _
    simp only [keyStructure, List.getElem_map, List.getElem_set]
    split
    · rename_i heq
      subst heq
      rw [hget]
    · rfl

theorem hashes_overwriteEntry :
    storage'.dict.entries.map DictEntry.hash = storage.dict.entries.map DictEntry.hash := by
  have hkeys := congrArg (List.map Prod.snd) (keyStructure_overwriteEntry h)
  rw [keyStructure, keyStructure, List.map_map, List.map_map] at hkeys
  exact hkeys

end

theorem Mutation.apply_table (htable : storage.Table) (h : mutation.apply storage = .ok storage') :
    storage'.Table := by
  cases mutation with
  | ensureBuckets bucketsPtr => exact .inr (ensureDictBuckets_cases htable h).1
  | overwrite index value =>
    obtain ⟨entry, hentry, rfl⟩ := overwriteEntry_cases h
    rcases htable with ⟨hempty, _⟩ | hbuilt
    · rw [hempty] at hentry
      cases hentry
    · refine .inr ⟨hbuilt.power_of_two, ?_, ?_⟩
      · have hhome := home_congr (hashes_overwriteEntry h) storage.dict.buckets.length
        rw [List.length_set, hhome]
        exact hbuilt.indexed
      · rw [List.length_set]
        exact hbuilt.room
  | append entry bucketsPtr entriesPtr => exact .inr (appendEntry_cases htable h).1
  | remove index bucketsPtr =>
    change removeEntry storage index bucketsPtr = _ at h
    unfold removeEntry at h
    split at h
    · exact .inr (rebuildDictBuckets_rebuilt h).built
    · cases h
  | popLast bucketsPtr =>
    change dictPopLast storage bucketsPtr = _ at h
    unfold dictPopLast at h
    split at h
    · cases h
      exact htable
    · exact .inr (rebuildDictBuckets_rebuilt h).built
  | clear =>
    cases h
    exact .inl ⟨rfl, rfl⟩

/-- As long as the table of `origin` is not replaced, its keys are not removed, unless all of them
are. -/
def Kept (origin storage : Placed K V) : Prop :=
  Built storage.dict ∧ keyStructure origin <+: keyStructure storage ∨ storage.dict.buckets = []

theorem Kept.apply {origin : Placed K V} (hkept : Kept origin storage) (htable : storage.Table)
    (h : mutation.apply storage = .ok storage') (hstay : storage'.bucketsPtr = storage.bucketsPtr) :
    Kept origin storage' := by
  cases mutation with
  | ensureBuckets bucketsPtr =>
    rcases (ensureDictBuckets_cases htable h).2 with hrebuilt | rfl
    · exact absurd hstay hrebuilt.moved
    · exact hkept
  | overwrite index value =>
    have hkeys := keyStructure_overwriteEntry h
    have htable' := Mutation.apply_table htable h
    rcases hkept with ⟨_, hpre⟩ | hempty
    · rcases htable' with ⟨_, hnone⟩ | hbuilt
      · exact .inr hnone
      · exact .inl ⟨hbuilt, hkeys ▸ hpre⟩
    · obtain ⟨entry, _, rfl⟩ := overwriteEntry_cases h
      exact .inr hempty
  | append entry bucketsPtr entriesPtr =>
    obtain ⟨hbuilt', hentries, hcases⟩ := appendEntry_cases htable h
    rcases hcases with hmoved | hbuilt
    · exact absurd hstay hmoved
    · rcases hkept with ⟨_, hpre⟩ | hempty
      · refine .inl ⟨hbuilt', hpre.trans ?_⟩
        simp only [keyStructure, hentries, List.map_append]
        exact List.prefix_append _ _
      · have hroom := hbuilt.room
        rw [hempty] at hroom
        exact absurd hroom (Nat.not_lt_zero _)
  | remove index bucketsPtr =>
    change removeEntry storage index bucketsPtr = _ at h
    unfold removeEntry at h
    split at h
    · exact absurd hstay (rebuildDictBuckets_rebuilt h).moved
    · cases h
  | popLast bucketsPtr =>
    change dictPopLast storage bucketsPtr = _ at h
    unfold dictPopLast at h
    split at h
    · cases h
      exact hkept
    · exact absurd hstay (rebuildDictBuckets_rebuilt h).moved
  | clear =>
    cases h
    exact .inr rfl

theorem applyAll_cons :
    applyAll storage (mutation :: mutations) = .ok storage' ↔
      ∃ next, mutation.apply storage = .ok next ∧ applyAll next mutations = .ok storage' := by
  unfold applyAll
  rw [List.foldlM_cons]
  cases mutation.apply storage with
  | error fault => simp [bind, Except.bind]
  | ok next => simp [bind, Except.bind]

theorem applyAll_concat :
    applyAll storage (mutations ++ [mutation]) = .ok storage' ↔
      ∃ next, applyAll storage mutations = .ok next ∧ mutation.apply next = .ok storage' := by
  unfold applyAll
  simp only [List.foldlM_append, List.foldlM_cons, List.foldlM_nil, bind_pure]
  cases mutations.foldlM Mutation.apply storage with
  | error fault => simp [bind, Except.bind]
  | ok next => simp [bind, Except.bind]

theorem applyAll_table (htable : storage.Table) (h : applyAll storage mutations = .ok storage') :
    storage'.Table := by
  induction mutations generalizing storage with
  | nil =>
    cases h
    exact htable
  | cons mutation mutations ih =>
    obtain ⟨next, happly, hrest⟩ := applyAll_cons.mp h
    exact ih (Mutation.apply_table htable happly) hrest

/-- The bucket table is at the address that it has in `before`, whenever some of the changes are made. -/
def Stays (before : Placed K V) (mutations : List (Mutation K V)) : Prop :=
  ∀ earlier later storage, mutations = earlier ++ later → applyAll before earlier = .ok storage →
    storage.bucketsPtr = before.bucketsPtr

theorem kept_of_stays (htable : storage.Table) (hstays : Stays storage mutations)
    (h : applyAll storage mutations = .ok storage') :
    Kept storage storage' := by
  induction mutations using List.reverseRec generalizing storage' with
  | nil =>
    cases h
    rcases htable with ⟨_, hempty⟩ | hbuilt
    · exact .inr hempty
    · exact .inl ⟨hbuilt, List.prefix_refl _⟩
  | append_singleton mutations mutation ih =>
    obtain ⟨next, hnext, happly⟩ := applyAll_concat.mp h
    have hstays' : Stays storage mutations := by
      intro earlier later at' hsplit hat
      exact hstays earlier (later ++ [mutation]) at' (by rw [hsplit, List.append_assoc]) hat
    have hnow : storage'.bucketsPtr = storage.bucketsPtr :=
      hstays _ [] storage' (List.append_nil _).symm h
    have hbefore : next.bucketsPtr = storage.bucketsPtr := hstays mutations [mutation] next rfl hnext
    exact (ih hstays' hnext).apply (applyAll_table htable hnext) happly (hnow.trans hbefore.symm)

end Changes

/-- The changes replace keys and give the table back: the bucket table is moved away on the way, and in
the end one is at its old address, with the lengths and the entry vector as they were. -/
structure TableReturns (before : Placed K V) (mutations : List (Mutation K V)) (after : Placed K V) :
    Prop where
  result : applyAll before mutations = .ok after
  keys_change : keyStructure after ≠ keyStructure before
  moved_away : ∃ earlier later away, mutations = earlier ++ later ∧
    applyAll before earlier = .ok away ∧ away.bucketsPtr ≠ before.bucketsPtr
  bucketsPtr_eq : after.bucketsPtr = before.bucketsPtr
  entriesPtr_eq : after.entriesPtr = before.entriesPtr
  entries_length_eq : after.dict.entries.length = before.dict.entries.length
  buckets_length_eq : after.dict.buckets.length = before.dict.buckets.length

variable {before after : Placed K V} {mutations : List (Mutation K V)}

theorem TableReturns.storageWitness_eq (h : TableReturns before mutations after) :
    storageWitness after = storageWitness before := by
  simp only [storageWitness, h.bucketsPtr_eq, h.entriesPtr_eq, h.entries_length_eq, h.buckets_length_eq]

theorem tableReturns_of_storageWitness_eq (htable : before.Table)
    (h : applyAll before mutations = .ok after)
    (hwitness : storageWitness after = storageWitness before)
    (hkeys : keyStructure after ≠ keyStructure before) : TableReturns before mutations after := by
  simp only [storageWitness, Prod.mk.injEq] at hwitness
  obtain ⟨hentries, hentriesPtr, hbuckets, hbucketsPtr⟩ := hwitness
  refine ⟨h, hkeys, ?_, hbucketsPtr, hentriesPtr, hentries, hbuckets⟩
  by_contra hstay
  have hstays : Stays before mutations := by
    intro earlier later storage hsplit hstorage
    by_contra hmoved
    exact hstay ⟨earlier, later, storage, hsplit, hstorage, hmoved⟩
  rcases kept_of_stays htable hstays h with ⟨_, hpre⟩ | hempty
  · apply hkeys
    refine (hpre.eq_of_length ?_).symm
    simp only [keyStructure, List.length_map, hentries]
  · have hnone : after.dict.entries = [] := by
      rcases applyAll_table htable h with ⟨hentries, _⟩ | hbuilt
      · exact hentries
      · have hroom := hbuilt.room
        rw [hempty] at hroom
        exact absurd hroom (Nat.not_lt_zero _)
    have hnone' : before.dict.entries = [] := by
      rw [hnone] at hentries
      exact List.length_eq_zero_iff.mp hentries.symm
    apply hkeys
    simp only [keyStructure, hnone, hnone']

/-- Fewer than two changes do not give the table back: the new table is allocated next to the old
one. -/
theorem not_tableReturns_of_length_le_one (hone : mutations.length ≤ 1) :
    ¬ TableReturns before mutations after := by
  intro h
  obtain ⟨earlier, later, away, rfl, haway, hmoved⟩ := h.moved_away
  cases earlier with
  | nil =>
    cases haway
    exact hmoved rfl
  | cons mutation earlier =>
    have hlater : later = [] := by
      simp only [List.length_append, List.length_cons] at hone
      exact List.eq_nil_of_length_eq_zero (by omega)
    have hresult := h.result
    rw [hlater, List.append_nil, haway] at hresult
    cases hresult
    exact hmoved h.bucketsPtr_eq

/-! ## Runs of comparisons -/

/-- One call of `__eq__` returns and is recorded. -/
def Compares (w w' : World K V) : Prop :=
  ∃ c : Comparison K V, w.calls = c.call :: w'.calls ∧ c.before = w.storage ∧
    c.after = w'.storage ∧ applyAll c.before c.call.mutations = .ok c.after ∧
    w'.compared = w.compared ++ [c]

/-- The storage that a list of calls of `__eq__` leaves. -/
def applyCalls (storage : Placed K V) (calls : List (UserEq K V)) : Except Fault (Placed K V) :=
  calls.foldlM (fun storage call ↦ applyAll storage call.mutations) storage

variable {storage storage' : Placed K V} {calls : List (UserEq K V)}

theorem applyCalls_cons {call : UserEq K V} (h : applyAll storage call.mutations = .ok after) :
    applyCalls storage (call :: calls) = .ok storage' ↔ applyCalls after calls = .ok storage' := by
  simp [applyCalls, List.foldlM_cons, h, bind, Except.bind]

theorem applyCalls_table (htable : storage.Table) (h : applyCalls storage calls = .ok storage') :
    storage'.Table := by
  induction calls generalizing storage with
  | nil =>
    cases h
    exact htable
  | cons call calls ih =>
    cases happly : applyAll storage call.mutations with
    | error fault =>
      simp [applyCalls, List.foldlM_cons, happly, bind, Except.bind] at h
    | ok after => exact ih (applyAll_table htable happly) ((applyCalls_cons happly).mp h)

section Runs

variable {w w' : World K V}

theorem dispatchUserEq_compares {entryKey key : K} {equal : Bool}
    (h : dispatchUserEq entryKey key w = (.ok equal, w')) :
    Compares w w' ∧ ∃ c ∈ w'.compared, c.entryKey = entryKey ∧ c.key = key ∧ c.before = w.storage ∧
      c.call.answer = .ok equal ∧ c.after = w'.storage := by
  unfold dispatchUserEq at h
  split at h
  · cases h
  · rename_i call calls hcalls
    split at h
    · cases h
    · rename_i after hafter
      obtain ⟨hanswer, rfl⟩ := Prod.mk.inj h
      have hequal : call.answer = .ok equal := by
        cases hcall : call.answer with
        | error message =>
          rw [hcall] at hanswer
          cases hanswer
        | ok given =>
          rw [hcall] at hanswer
          cases hanswer
          rfl
      refine ⟨⟨_, hcalls, rfl, rfl, hafter, rfl⟩, _, List.mem_append_right _ List.mem_cons_self,
        rfl, rfl, rfl, hequal, rfl⟩

variable (h : Relation.ReflTransGen Compares w w')
include h

theorem table_of_compares (htable : w.storage.Table) :
    w'.storage.Table := by
  induction h with
  | refl => exact htable
  | tail _ hstep ih =>
    obtain ⟨c, _, hbefore, hafter, happly, _⟩ := hstep
    rw [hbefore, hafter] at happly
    exact applyAll_table ih happly

theorem compared_subset : w.compared ⊆ w'.compared := by
  induction h with
  | refl => exact List.Subset.refl _
  | tail _ hstep ih =>
    obtain ⟨c, _, _, _, _, hcompared⟩ := hstep
    rw [hcompared]
    exact List.Subset.trans ih (List.subset_append_left _ _)

theorem exists_calls_eq_append :
    ∃ made, w.calls = made ++ w'.calls := by
  induction h using Relation.ReflTransGen.head_induction_on with
  | refl => exact ⟨[], rfl⟩
  | head hstep _ ih =>
    obtain ⟨c, hcalls, _⟩ := hstep
    obtain ⟨made, hmade⟩ := ih
    exact ⟨c.call :: made, by rw [hcalls, hmade]; rfl⟩

/-- A comparison that is recorded on the way was made by one of the calls, on the storage that the
calls before it left. -/
theorem exists_split_of_mem {c : Comparison K V}
    (hc : c ∈ w'.compared) : c ∈ w.compared ∨ ∃ earlier later,
      w.calls = earlier ++ c.call :: (later ++ w'.calls) ∧
      applyCalls w.storage earlier = .ok c.before ∧
      applyAll c.before c.call.mutations = .ok c.after := by
  induction h using Relation.ReflTransGen.head_induction_on with
  | refl => exact .inl hc
  | @head w next hstep hrest ih =>
    obtain ⟨first, hcalls, hbefore, hafter, happly, hcompared⟩ := hstep
    rcases ih with hold | ⟨earlier, later, hsplit, hstorage, hcall⟩
    · rw [hcompared] at hold
      rcases List.mem_append.mp hold with hold | hnew
      · exact .inl hold
      · rw [List.mem_singleton.mp hnew]
        obtain ⟨made, hmade⟩ := exists_calls_eq_append hrest
        exact .inr ⟨[], made, by rw [hcalls, hmade]; rfl, by rw [hbefore]; rfl, happly⟩
    · refine .inr ⟨first.call :: earlier, later, ?_, ?_, hcall⟩
      · rw [hcalls, hsplit]
        rfl
      · rw [← hbefore, applyCalls_cons happly, hafter]
        exact hstorage

/-- Each call that is made on the way is recorded. -/
theorem exists_mem_of_split {earlier later : List (UserEq K V)} {call : UserEq K V}
    (hsplit : w.calls = earlier ++ call :: (later ++ w'.calls))
    (hstorage : applyCalls w.storage earlier = .ok storage) :
    ∃ c ∈ w'.compared, c.before = storage ∧ c.call = call ∧
      applyAll storage call.mutations = .ok c.after := by
  induction h using Relation.ReflTransGen.head_induction_on generalizing earlier with
  | refl =>
    have hlength := congrArg List.length hsplit
    simp only [List.length_append, List.length_cons] at hlength
    omega
  | @head w next hstep hrest ih =>
    obtain ⟨first, hcalls, hbefore, hafter, happly, hcompared⟩ := hstep
    cases earlier with
    | nil =>
      rw [hcalls] at hsplit
      obtain ⟨rfl, _⟩ := List.cons.inj hsplit
      cases hstorage
      refine ⟨first, compared_subset hrest ?_, hbefore, rfl, hbefore ▸ happly⟩
      rw [hcompared]
      exact List.mem_append_right _ List.mem_cons_self
    | cons other earlier =>
      rw [hcalls] at hsplit
      obtain ⟨rfl, hrest'⟩ := List.cons.inj hsplit
      rw [← hbefore, applyCalls_cons happly, hafter] at hstorage
      exact ih hrest' hstorage

end Runs

/-! ## Lookup -/

/-- The lookup has compared an entry key with `key`, with this answer, on the keys that `final` has:
structurally, or by a call of `__eq__` after which the dict has these keys. -/
def ComparedAs (keys : KeyOps K) (key : K) (final : World K V) (entryKey : K) (answer : Bool) : Prop :=
  keys.objectEqualStructural entryKey key = some (.ok answer) ∨
    ∃ c ∈ final.compared, c.entryKey = entryKey ∧ c.key = key ∧ c.call.answer = .ok answer ∧
      keyStructure c.after = keyStructure final.storage

/-- What the lookup returns is right for the table at its return. -/
structure Answers (keys : KeyOps K) (key : K) (hash : BitVec 64) (final : World K V)
    (found : Option ℕ) : Prop where
  hit : ∀ i, found = some i → ∃ entry, final.storage.dict.entries[i]? = some entry ∧
    ComparedAs keys key final entry.key true
  miss : found = none → ∀ entry ∈ final.storage.dict.entries, entry.hash = hash →
    ComparedAs keys key final entry.key false

/-- No comparison changed the keys behind the witness. -/
def Witnessed (final : World K V) : Prop :=
  ∀ c ∈ final.compared, keyStructure c.after ≠ keyStructure c.before →
    storageWitness c.after ≠ storageWitness c.before

theorem Witnessed.keyStructure_eq {final : World K V} (h : Witnessed final) {c : Comparison K V}
    (hc : c ∈ final.compared) (hwitness : storageWitness c.after = storageWitness c.before) :
    keyStructure c.after = keyStructure c.before := by
  by_contra hne
  exact h c hc hne hwitness

section Collecting

variable {keys : KeyOps K} {dict : PyDictStorage K V} {key : K} {hash : BitVec 64}
  {w w' : World K V}

variable {candidates : List (ℕ × K)}

variable {i : ℕ} {entry : DictEntry K V}

/-- The candidates of a pass account for the entries with the hash, also after a pass that left the
keys alone. -/
theorem miss_of_candidates (hbuilt : Built w.storage.dict)
    (hcollect : collectCandidates keys w.storage.dict key hash w.storage.dict.buckets.length
      (bucketIndex hash w.storage.dict.buckets.length) [] = .ok (none, candidates))
    (hkeys : keyStructure w'.storage = keyStructure w.storage)
    (hcompared : ∀ candidate ∈ candidates, ComparedAs keys key w' candidate.2 false)
    (hentry : entry ∈ w'.storage.dict.entries) (hhash : entry.hash = hash) :
    ComparedAs keys key w' entry.key false := by
  obtain ⟨i, hi, hget⟩ := List.getElem_of_mem hentry
  have hat : (keyStructure w.storage)[i]? = some (entry.key, entry.hash) := by
    rw [← hkeys, keyStructure, List.getElem?_map, List.getElem?_eq_getElem hi, hget]
    rfl
  rw [keyStructure, List.getElem?_map] at hat
  obtain ⟨before, hbefore, hpair⟩ := Option.map_eq_some_iff.mp hat
  obtain ⟨hkey, hhash'⟩ := Prod.mk.inj hpair
  obtain ⟨-, -, hmet⟩ := collectCandidates_spec hbuilt hcollect
  rcases hmet i before trivial hbefore (hhash'.trans hhash) with hfalse | hmem
  · exact .inl (hkey ▸ hfalse)
  · exact hkey ▸ hcompared _ hmem

end Collecting

section Lookup

variable [DecidableEq K] {keys : KeyOps K} {key : K} {hash : BitVec 64} {w w' : World K V}

variable {witness : ℕ × ℕ × ℕ × ℕ} {candidates : List (ℕ × K)} {restarts : ℕ} {found : Option ℕ}

variable {outcome : Option (Option ℕ)}

theorem dispatchDeferred_cons_cases {index : ℕ} {entryKey : K} {rest : List (ℕ × K)}
    (h : dispatchDeferred witness key ((index, entryKey) :: rest) w = (.ok outcome, w')) :
    ∃ equal next, dispatchUserEq entryKey key w = (.ok equal, next) ∧
      (equal = true ∧ w' = next ∧ (outcome = none ∨ outcome = some (some index) ∧
          next.storage.dict.entries[index]?.map DictEntry.key = some entryKey) ∨
        equal = false ∧ (outcome = none ∧ w' = next ∨ storageWitness next.storage = witness ∧
          dispatchDeferred witness key rest next = (.ok outcome, w'))) := by
  rw [dispatchDeferred] at h
  obtain ⟨equal, next, hdispatch, hafter⟩ := of_bind_ok h
  refine ⟨equal, next, hdispatch, ?_⟩
  rw [bind_ok (show dictRef next = (.ok next.storage, next) from rfl)] at hafter
  cases equal with
  | true =>
    simp only [if_true] at hafter
    split at hafter
    · rename_i hslot
      cases hafter
      exact .inl ⟨rfl, rfl, .inr ⟨rfl, hslot⟩⟩
    · cases hafter
      exact .inl ⟨rfl, rfl, .inl rfl⟩
  | false =>
    simp only [Bool.false_eq_true, if_false, ne_eq, ite_not] at hafter
    split at hafter
    · rename_i hwitness
      exact .inr ⟨rfl, .inr ⟨hwitness, hafter⟩⟩
    · cases hafter
      exact .inr ⟨rfl, .inl ⟨rfl, rfl⟩⟩

theorem dispatchDeferred_run (h : dispatchDeferred witness key candidates w = (.ok outcome, w')) :
    Relation.ReflTransGen Compares w w' := by
  induction candidates generalizing w with
  | nil =>
    cases h
    exact .refl
  | cons candidate rest ih =>
    obtain ⟨equal, next, hdispatch, hcases⟩ := dispatchDeferred_cons_cases h
    have hstep : Compares w next := (dispatchUserEq_compares hdispatch).1
    rcases hcases with ⟨_, rfl, _⟩ | ⟨_, ⟨_, rfl⟩ | ⟨_, hrest⟩⟩
    · exact .single hstep
    · exact .single hstep
    · exact .head hstep (ih hrest)

/-- An index that the deferred pass returns is that of the key that was compared equal. -/
theorem dispatchDeferred_hit {i : ℕ}
    (h : dispatchDeferred witness key candidates w = (.ok (some (some i)), w')) :
    ∃ entry, w'.storage.dict.entries[i]? = some entry ∧ ComparedAs keys key w' entry.key true := by
  induction candidates generalizing w with
  | nil => cases h
  | cons candidate rest ih =>
    obtain ⟨equal, next, hdispatch, hcases⟩ := dispatchDeferred_cons_cases h
    rcases hcases with ⟨rfl, rfl, hnone | ⟨hfound, hslot⟩⟩ | ⟨_, ⟨hnone, _⟩ | ⟨_, hrest⟩⟩
    · cases hnone
    · cases hfound
      obtain ⟨c, hc, hentryKey, hkey, _, hanswer, hafter⟩ := (dispatchUserEq_compares hdispatch).2
      obtain ⟨entry, hentry, heq⟩ := Option.map_eq_some_iff.mp hslot
      exact ⟨entry, hentry, .inr ⟨c, hc, hentryKey.trans heq.symm, hkey, hanswer, by rw [hafter]⟩⟩
    · cases hnone
    · exact ih hrest

/-- A deferred pass that ends has compared every candidate unequal, on keys that did not change. -/
theorem dispatchDeferred_miss (hwitnessed : Witnessed w')
    (h : dispatchDeferred (storageWitness w.storage) key candidates w = (.ok (some none), w')) :
    keyStructure w'.storage = keyStructure w.storage ∧
      ∀ candidate ∈ candidates, ComparedAs keys key w' candidate.2 false := by
  generalize hstart : storageWitness w.storage = witness at h
  induction candidates generalizing w with
  | nil =>
    cases h
    exact ⟨rfl, by simp⟩
  | cons candidate rest ih =>
    obtain ⟨equal, next, hdispatch, hcases⟩ := dispatchDeferred_cons_cases h
    rcases hcases with ⟨_, _, hnone | ⟨hfound, _⟩⟩ | ⟨rfl, ⟨hnone, _⟩ | ⟨hwitness, hrest⟩⟩
    · cases hnone
    · cases hfound
    · cases hnone
    · obtain ⟨hkeys, hothers⟩ := ih hwitness hrest
      obtain ⟨c, hc, hentryKey, hkey, hbefore, hanswer, hafter⟩ := (dispatchUserEq_compares hdispatch).2
      have hmem : c ∈ w'.compared := compared_subset (dispatchDeferred_run hrest) hc
      have hsame : keyStructure next.storage = keyStructure w.storage := by
        rw [← hafter, ← hbefore]
        apply hwitnessed.keyStructure_eq hmem
        rw [hafter, hbefore, hwitness, hstart]
      refine ⟨hkeys.trans hsame, ?_⟩
      intro other hother
      rcases List.mem_cons.mp hother with rfl | hother
      · exact .inr ⟨c, hmem, hentryKey, hkey, hanswer, by rw [hafter, hkeys]⟩
      · exact hothers other hother

theorem findEntryIndex_cases (h : findEntryIndex keys key hash (restarts + 1) w = (.ok found, w')) :
    w.storage.dict.buckets = [] ∧ found = none ∧ w' = w ∨ w.storage.dict.buckets ≠ [] ∧
      ∃ matched deferred, collectCandidates keys w.storage.dict key hash
          w.storage.dict.buckets.length (bucketIndex hash w.storage.dict.buckets.length) [] =
            .ok (matched, deferred) ∧
        (found = matched ∧ w' = w ∧ (matched = none → deferred = []) ∨
          matched = none ∧ ∃ outcome next,
            dispatchDeferred (storageWitness w.storage) key deferred w = (.ok outcome, next) ∧
            (outcome = some found ∧ w' = next ∨
              outcome = none ∧ findEntryIndex keys key hash restarts next = (.ok found, w'))) := by
  rw [findEntryIndex, bind_ok (show dictRef w = (.ok w.storage, w) from rfl)] at h
  split at h
  · rename_i hempty
    cases h
    exact .inl ⟨List.isEmpty_iff.mp hempty, rfl, rfl⟩
  · rename_i hbuckets
    obtain ⟨⟨matched, deferred⟩, next, hcollect, hafter⟩ := of_bind_ok h
    obtain ⟨hcollect, rfl⟩ := of_lift_ok hcollect
    refine .inr ⟨fun hempty ↦ hbuckets (List.isEmpty_iff.mpr hempty), matched, deferred, hcollect, ?_⟩
    cases matched with
    | some index =>
      cases hafter
      exact .inl ⟨rfl, rfl, by simp⟩
    | none =>
      simp only at hafter
      split at hafter
      · rename_i hnone
        cases hafter
        exact .inl ⟨rfl, rfl, fun _ ↦ List.isEmpty_iff.mp hnone⟩
      · obtain ⟨outcome, last, hdispatch, hlast⟩ := of_bind_ok hafter
        refine .inr ⟨rfl, outcome, last, hdispatch, ?_⟩
        cases outcome with
        | some found' =>
          cases hlast
          exact .inl ⟨rfl, rfl⟩
        | none => exact .inr ⟨rfl, hlast⟩

theorem findEntryIndex_run (h : findEntryIndex keys key hash restarts w = (.ok found, w')) :
    Relation.ReflTransGen Compares w w' := by
  induction restarts generalizing w with
  | zero => cases h
  | succ restarts ih =>
    rcases findEntryIndex_cases h with ⟨_, _, rfl⟩ | ⟨_, _, _, _, ⟨_, rfl, _⟩ |
      ⟨_, outcome, next, hdispatch, ⟨_, rfl⟩ | ⟨_, hrest⟩⟩⟩
    · exact .refl
    · exact .refl
    · exact dispatchDeferred_run hdispatch
    · exact (dispatchDeferred_run hdispatch).trans (ih hrest)

/-- With no change behind the witness the lookup is right. -/
theorem findEntryIndex_answers (htable : w.storage.Table) (hwitnessed : Witnessed w')
    (h : findEntryIndex keys key hash restarts w = (.ok found, w')) :
    Answers keys key hash w' found := by
  induction restarts generalizing w with
  | zero => cases h
  | succ restarts ih =>
    rcases findEntryIndex_cases h with ⟨hnone, rfl, rfl⟩ | ⟨hbuckets, matched, deferred, hcollect, hcases⟩
    · refine ⟨by simp, fun _ entry hentry ↦ ?_⟩
      rcases htable with ⟨hentries, _⟩ | hbuilt
      · rw [hentries] at hentry
        cases hentry
      · have hroom := hbuilt.room
        rw [hnone] at hroom
        exact absurd hroom (Nat.not_lt_zero _)
    · have hbuilt : Built w.storage.dict := htable.resolve_left fun hempty ↦ hbuckets hempty.2
      rcases hcases with ⟨rfl, rfl, hdeferred⟩ | ⟨rfl, outcome, next, hdispatch, hcases⟩
      · refine ⟨?_, ?_⟩
        · rintro i rfl
          obtain ⟨entry, hentry, hequal⟩ := collectCandidates_spec hbuilt hcollect
          exact ⟨entry, hentry, .inl hequal⟩
        · rintro rfl entry hentry hhash
          refine miss_of_candidates hbuilt hcollect rfl ?_ hentry hhash
          rw [hdeferred rfl]
          simp
      · rcases hcases with ⟨rfl, rfl⟩ | ⟨_, hrest⟩
        · refine ⟨?_, ?_⟩
          · rintro i rfl
            exact dispatchDeferred_hit hdispatch
          · rintro rfl entry hentry hhash
            obtain ⟨hkeys, hcompared⟩ := dispatchDeferred_miss hwitnessed hdispatch
            exact miss_of_candidates hbuilt hcollect hkeys hcompared hentry hhash
        · exact ih (table_of_compares (dispatchDeferred_run hdispatch) htable) hrest

end Lookup

/-! ## Insertion -/

/-- No call of `__eq__` that is made between `w` and `w'` gives the table back with other keys. -/
def Undisturbed (ensuredPtr : ℕ) (w w' : World K V) : Prop :=
  ∀ start earlier call later before after, ensureDictBuckets w.storage ensuredPtr = .ok start →
    w.calls = earlier ++ call :: (later ++ w'.calls) → applyCalls start earlier = .ok before →
    ¬ TableReturns before call.mutations after

/-- An insertion that finds the table `w'` gives an entry whose key was compared equal the new value, or
appends an entry after every key with the hash was compared unequal. -/
def Inserted (keys : KeyOps K) (key : K) (value : V) (hash : BitVec 64) (w' w'' : World K V) : Prop :=
  (∃ i entry, w'.storage.dict.entries[i]? = some entry ∧ ComparedAs keys key w' entry.key true ∧
      w''.storage.dict.entries = w'.storage.dict.entries.set i { entry with value }) ∨
    (∀ entry ∈ w'.storage.dict.entries, entry.hash = hash → ComparedAs keys key w' entry.key false) ∧
      w''.storage.dict.entries = w'.storage.dict.entries ++ [⟨key, value, hash⟩]

section Insertion

variable [DecidableEq K] {keys : KeyOps K} {restarts ensuredPtr : ℕ} {key : K} {hash : BitVec 64}
  {found : Option ℕ} {w w' : World K V}

theorem locate_cases (h : locate keys restarts ensuredPtr key w = (.ok (hash, found), w')) :
    ∃ start, ensureDictBuckets w.storage ensuredPtr = .ok start ∧
      findEntryIndex keys key hash restarts { w with storage := start } = (.ok found, w') := by
  obtain ⟨hash', next, hhash, hrest⟩ := of_bind_ok h
  obtain ⟨_, rfl⟩ := of_lift_ok hhash
  obtain ⟨_, ensured, hensure, hsearch⟩ := of_bind_ok hrest
  obtain ⟨found', last, hfind, hpure⟩ := of_bind_ok hsearch
  cases hpure
  unfold mutate at hensure
  split at hensure
  · cases hensure
  · rename_i start hstart
    cases hensure
    exact ⟨start, hstart, hfind⟩

omit [DecidableEq K] in
theorem mutate_ok {mutation : Mutation K V} (h : mutate mutation w = (.ok (), w')) :
    mutation.apply w.storage = .ok w'.storage := by
  unfold mutate at h
  split at h
  · cases h
  · rename_i storage happly
    cases h
    exact happly

theorem dictInsert_inserted {placement : Placement} {value : V} {w'' : World K V}
    (htable : w'.storage.Table) (hanswers : Answers keys key hash w' found)
    (hlocate : locate keys restarts placement.ensuredPtr key w = (.ok (hash, found), w'))
    (h : dictInsert keys restarts placement (some key) (some value) w = (.ok (), w'')) :
    Inserted keys key value hash w' w'' := by
  rw [dictInsert, bind_ok hlocate] at h
  cases found with
  | some index =>
    have hrest : mutate (.overwrite index value) w' = (.ok (), w'') := h
    obtain ⟨entry, hentry, hequal⟩ := hanswers.hit index rfl
    obtain ⟨entry', hentry', hstorage⟩ := overwriteEntry_cases (mutate_ok hrest)
    rw [hentry, Option.some_inj] at hentry'
    subst hentry'
    exact .inl ⟨index, entry, hentry, hequal, by rw [hstorage]⟩
  | none =>
    have hrest : mutate (.append { key, value, hash } placement.grownPtr placement.entriesPtr) w' =
        (.ok (), w'') := h
    exact .inr ⟨hanswers.miss rfl, (appendEntry_cases htable (mutate_ok hrest)).2.1⟩

omit [DecidableEq K] in
/-- The witness is sound exactly if no call of `__eq__` gives the table back. -/
theorem witnessed_iff_undisturbed {start : Placed K V} (htable : start.Table)
    (hnew : w.compared = []) (hstart : ensureDictBuckets w.storage ensuredPtr = .ok start)
    (hrun : Relation.ReflTransGen Compares { w with storage := start } w') :
    Witnessed w' ↔ Undisturbed ensuredPtr w w' := by
  constructor
  · intro hwitnessed start' earlier call later before after hstart' hsplit hbefore hreturns
    rw [hstart] at hstart'
    cases hstart'
    obtain ⟨c, hc, hstorage, rfl, hafter⟩ := exists_mem_of_split hrun hsplit hbefore
    have hsame := hreturns.result.symm.trans hafter
    cases hsame
    subst hstorage
    exact hwitnessed c hc hreturns.keys_change hreturns.storageWitness_eq
  · intro hundisturbed c hc hkeys hwitness
    rcases exists_split_of_mem hrun hc with hold | ⟨earlier, later, hsplit, hbefore, happly⟩
    · change c ∈ w.compared at hold
      rw [hnew] at hold
      cases hold
    · exact hundisturbed start earlier c.call later c.before c.after hstart hsplit hbefore
        (tableReturns_of_storageWitness_eq (applyCalls_table htable hbefore) happly hwitness hkeys)

/-- A lookup is right for the table at its return, and no change of the keys goes unnoticed, exactly if
no call of `__eq__` gives the table back. -/
theorem lookup_correct_iff_undisturbed (htable : w.storage.Table) (hnew : w.compared = [])
    (h : locate keys restarts ensuredPtr key w = (.ok (hash, found), w')) :
    (Answers keys key hash w' found ∧ Witnessed w' ∧
      ∀ placement value w'', placement.ensuredPtr = ensuredPtr →
        dictInsert keys restarts placement (some key) (some value) w = (.ok (), w'') →
        Inserted keys key value hash w' w'') ↔
      Undisturbed ensuredPtr w w' := by
  obtain ⟨start, hstart, hfind⟩ := locate_cases h
  have hrun := findEntryIndex_run hfind
  have hbuilt : start.Table := .inr (ensureDictBuckets_cases htable hstart).1
  rw [← witnessed_iff_undisturbed hbuilt hnew hstart hrun]
  constructor
  · rintro ⟨_, hwitnessed, _⟩
    exact hwitnessed
  · intro hwitnessed
    have hanswers := findEntryIndex_answers hbuilt hwitnessed hfind
    refine ⟨hanswers, hwitnessed, ?_⟩
    rintro placement value w'' rfl hinsert
    exact dictInsert_inserted (table_of_compares hrun hbuilt) hanswers h hinsert

end Insertion

/-! ## Two runs -/

/-- Every key hashes to 1 and has a user-defined `__eq__`. -/
def collidingKeys : KeyOps ℕ where
  hashObject _ := .ok 1
  typeName _ := none
  objectEqualStructural left right := if left = right then some (.ok true) else none
  dispatchUserEq _ _ := .ok false

/-- A dict with the keys 1 and 2. -/
def twoKeys : Placed ℕ ℕ where
  dict :=
    { entries := [⟨1, 100, 1⟩, ⟨2, 200, 1⟩]
      buckets := [none, some 0, some 1, none, none, none, none, none] }
  entriesPtr := 1000
  bucketsPtr := 2000

theorem twoKeys_table : twoKeys.Table := by
  obtain ⟨buckets, hrebuild, _, hbuilt⟩ := rebuildDictBuckets_built twoKeys.dict
  have hsame : Dict.rebuildDictBuckets twoKeys.dict = .ok twoKeys.dict := by rfl
  rw [hrebuild] at hsame
  rw [Except.ok.inj hsame] at hbuilt
  exact .inr hbuilt

/-- The first comparison removes a key, the pass restarts, and the next one finds its key. -/
def removedOnce : World ℕ ℕ where
  storage := twoKeys
  calls := [⟨[.remove 1 3000], .ok false⟩, ⟨[], .ok true⟩]
  compared := []

theorem removedOnce_lookup_correct :
    Answers collidingKeys 3 1 (locate collidingKeys 2 4000 3 removedOnce).2 (some 0) := by
  have hlocate : locate collidingKeys 2 4000 3 removedOnce =
      (.ok (1, some 0), (locate collidingKeys 2 4000 3 removedOnce).2) := by rfl
  refine ((lookup_correct_iff_undisturbed twoKeys_table rfl hlocate).mpr ?_).1
  intro start earlier call later before after _ hsplit _
  apply not_tableReturns_of_length_le_one
  have hcall : call ∈ removedOnce.calls := hsplit ▸ by simp
  have hshort : ∀ call ∈ removedOnce.calls, call.mutations.length ≤ 1 := by decide
  exact hshort call hcall

/-- The comparison of key 1 with key 3 removes key 2, inserts key 3 and key 4, and removes key 4. The
table of the second removal gets the address that the first one freed. -/
def givenBack : World ℕ ℕ where
  storage := twoKeys
  calls := [⟨[.remove 1 3000, .append ⟨3, 300, 1⟩ 4000 1000, .append ⟨4, 400, 1⟩ 4000 1000,
    .remove 2 2000], .ok false⟩, ⟨[], .ok false⟩]
  compared := []

/-- The lookup of key 3 misses it, and the insertion appends it a second time. -/
theorem key_inserted_twice : twoKeys.Table ∧
    (∃ w', locate collidingKeys 2 4000 3 givenBack = (.ok (1, none), w') ∧
      ¬ Answers collidingKeys 3 1 w' none ∧ ¬ Witnessed w') ∧
    (dictInsert collidingKeys 2 ⟨4000, 4000, 1000⟩ (some 3) (some 301)
      givenBack).2.storage.dict.entries.map DictEntry.key = [1, 3, 3] := by
  have hentries : (locate collidingKeys 2 4000 3 givenBack).2.storage.dict.entries =
      [⟨1, 100, 1⟩, ⟨3, 300, 1⟩] := by rfl
  have hcompared : (locate collidingKeys 2 4000 3 givenBack).2.compared.map Comparison.entryKey =
      [1, 2] := by rfl
  refine ⟨twoKeys_table, ⟨(locate collidingKeys 2 4000 3 givenBack).2, rfl, ?_, ?_⟩, by decide⟩
  · intro hanswers
    have hnew := hanswers.miss rfl ⟨3, 300, 1⟩ (hentries ▸ by simp) rfl
    rcases hnew with hstructural | ⟨c, hc, hkey, _⟩
    · cases hstructural
    · have hmem := List.mem_map_of_mem (f := Comparison.entryKey) hc
      rw [hcompared, hkey] at hmem
      simp at hmem
  · unfold Witnessed
    decide

end Pon.Dict.Reentrant
