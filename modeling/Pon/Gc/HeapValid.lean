import Mathlib.Data.List.TakeWhile
import Pon.Gc.Block
import Pon.Gc.SpanValid

/-!
# The representation invariant of the heap

`HeapState.Valid` is what holds of the spans, their index, the lists of spans with free slots and the
large objects, also in the middle of a collection; `HeapState.Quiet` holds in addition whenever the
heap lock is free. In a valid heap a pointer resolves to the one block that contains it.
-/

namespace Pon.Gc

/-- The span at `index` exists and belongs to the size class. -/
def HeapState.HasSpan (s : HeapState) (sizeClass index : ℕ) : Prop :=
  ∃ span, s.span? index = some span ∧ span.sizeClass = sizeClass

structure HeapState.Valid (s : HeapState) : Prop where
  types_length : s.types.length ≤ maxTypeId
  spans : ∀ index span, s.span? index = some span → SpanValid span
  index_sorted : s.spanBaseIndex.Pairwise fun a b ↦ a.1 < b.1
  index_iff : ∀ base index, (base, index) ∈ s.spanBaseIndex ↔
    ∃ span, s.span? index = some span ∧ span.base = base
  free_unused : ∀ index ∈ s.spanSlotsFree, index < s.spans.length ∧ s.span? index = none
  free_nodup : s.spanSlotsFree.Nodup
  open_exists : ∀ sizeClass index, s.openSpan sizeClass = some index → s.HasSpan sizeClass index
  partial_exists : ∀ sizeClass, ∀ index ∈ s.partialSpans sizeClass, s.HasSpan sizeClass index
  large_aligned : ∀ object ∈ s.large, defaultHeapAlignment ∣ object.start
  large_pos : ∀ object ∈ s.large, 0 < object.start ∧ 0 < object.size
  regions_disjoint : s.regions.Pairwise DisjointRegions
  large_index : s.largeIndexDirty = false → s.largeIndex = (largeEntries s.large).insertionSort EntryLe

/-- No marking is going on. -/
structure HeapState.Quiet (s : HeapState) : Prop where
  spans : ∀ index span, s.span? index = some span → SpanQuiet span
  large : ∀ object ∈ s.large, object.color = .white
  spanQueue : s.spanQueue = []
  largeQueue : s.largeQueue = []

theorem valid_new : HeapState.new.Valid where
  types_length := Nat.zero_le _
  spans index span h := by simp [HeapState.new, HeapState.span?] at h
  index_sorted := List.Pairwise.nil
  index_iff base index := by simp [HeapState.new, HeapState.span?]
  free_unused index h := by simp [HeapState.new] at h
  free_nodup := List.nodup_nil
  open_exists sizeClass index h := by simp [HeapState.new] at h
  partial_exists sizeClass index h := by simp [HeapState.new] at h
  large_aligned object h := by simp [HeapState.new] at h
  large_pos object h := by simp [HeapState.new] at h
  regions_disjoint := List.Pairwise.nil
  large_index _ := rfl

theorem quiet_new : HeapState.new.Quiet where
  spans index span h := by simp [HeapState.new, HeapState.span?] at h
  large object h := by simp [HeapState.new] at h
  spanQueue := rfl
  largeQueue := rfl

/-! ## Spans of a state -/

variable {s : HeapState} {index j address slot : ℕ} {span old : Span} {object : LargeObject}
  {block : Block} {location : ObjectLocation}

theorem HeapState.span?_eq_some :
    s.span? index = some span ↔ s.spans[index]? = some (some span) := by
  simp [HeapState.span?, Option.join_eq_some_iff]

theorem HeapState.lt_of_span? (h : s.span? index = some span) : index < s.spans.length := by
  obtain ⟨hlt, _⟩ := List.getElem?_eq_some_iff.mp (HeapState.span?_eq_some.mp h)
  exact hlt

theorem HeapState.span?_setSpan (hlt : index < s.spans.length) (span : Span) (j : ℕ) :
    (s.setSpan index span).span? j = if j = index then some span else s.span? j := by
  unfold HeapState.span? HeapState.setSpan
  rw [List.getElem?_set]
  by_cases hj : index = j
  · subst hj
    simp [hlt]
  · simp [hj, Ne.symm hj]

theorem map_set_of_eq {α β : Type*} {f : α → β} {l : List α} {old new : α}
    (hold : l[index]? = some old) (hf : f new = f old) : (l.set index new).map f = l.map f := by
  apply List.ext_getElem?
  intro j
  rw [List.getElem?_map, List.getElem?_map, List.getElem?_set]
  by_cases hj : index = j
  · subst hj
    obtain ⟨hlt, hget⟩ := List.getElem?_eq_some_iff.mp hold
    simp [hlt, hget, hf]
  · simp [hj]

/-- Replacing an element of a list replaces its image. -/
theorem filterMap_set_perm {α β : Type*} (f : α → Option β) {l : List α} {old : α}
    (hold : l[index]? = some old) (new : α) :
    ((f old).toList ++ (l.set index new).filterMap f).Perm ((f new).toList ++ l.filterMap f) := by
  induction l generalizing index with
  | nil => simp at hold
  | cons head tail ih =>
    cases index with
    | zero =>
      obtain rfl : head = old := by simpa using hold
      rw [List.set_cons_zero, List.filterMap_cons, List.filterMap_cons]
      cases hnew : f new <;> cases hhead : f head <;> simp [List.Perm.swap]
    | succ index =>
      have htail := ih (show tail[index]? = some old by simpa using hold)
      rw [List.set_cons_succ, List.filterMap_cons, List.filterMap_cons]
      cases hhead : f head with
      | none => exact htail
      | some b =>
        calc
          ((f old).toList ++ b :: (tail.set index new).filterMap f).Perm
              (b :: ((f old).toList ++ (tail.set index new).filterMap f)) := List.perm_middle
          _ |>.Perm (b :: ((f new).toList ++ tail.filterMap f)) := htail.cons b
          _ |>.Perm ((f new).toList ++ b :: tail.filterMap f) := List.perm_middle.symm

theorem HeapState.regions_setSpan (hold : s.span? index = some old) (hbase : span.base = old.base) :
    (s.setSpan index span).regions.Perm s.regions := by
  have hperm := filterMap_set_perm (fun span ↦ span.map fun span : Span ↦ (span.base, spanBytes))
    (HeapState.span?_eq_some.mp hold) (some span)
  simp only [Option.map_some, Option.toList_some, hbase, List.singleton_append, List.perm_cons] at hperm
  exact hperm.append_right _

theorem HeapState.HasSpan.setSpan {sizeClass : ℕ} (h : s.HasSpan sizeClass j)
    (hold : s.span? index = some old) (hclass : span.sizeClass = old.sizeClass) :
    (s.setSpan index span).HasSpan sizeClass j := by
  obtain ⟨other, hother, hc⟩ := h
  have hset := HeapState.span?_setSpan (HeapState.lt_of_span? hold) span j
  by_cases hj : j = index
  · subst hj
    rw [hold] at hother
    cases hother
    exact ⟨span, by simpa using hset, hclass.trans hc⟩
  · exact ⟨other, by simpa [hj, hother] using hset, hc⟩

/-- Spans may be replaced by valid spans of the same base and size class. -/
theorem HeapState.Valid.setSpan (h : s.Valid) (hold : s.span? index = some old)
    (hvalid : SpanValid span) (hbase : span.base = old.base)
    (hclass : span.sizeClass = old.sizeClass) : (s.setSpan index span).Valid := by
  have hset := HeapState.span?_setSpan (HeapState.lt_of_span? hold) span
  refine
    { h with
      spans := ?_
      index_iff := ?_
      free_unused := ?_
      open_exists := fun c j hj ↦ (h.open_exists c j hj).setSpan hold hclass
      partial_exists := fun c j hj ↦ (h.partial_exists c j hj).setSpan hold hclass
      regions_disjoint := ?_ }
  · intro j other hother
    rw [hset] at hother
    split at hother
    · cases hother
      exact hvalid
    · exact h.spans j other hother
  · intro base j
    have hiff := h.index_iff base j
    change (base, j) ∈ s.spanBaseIndex ↔ _
    rw [hset]
    by_cases hj : j = index
    · subst hj
      simpa [hold, hbase] using hiff
    · simpa [hj] using hiff
  · intro j hj
    obtain ⟨hlt, hnone⟩ := h.free_unused j hj
    have hne : j ≠ index := by
      rintro rfl
      rw [hold] at hnone
      cases hnone
    exact ⟨by simpa [HeapState.setSpan] using hlt, by simpa [hset, hne] using hnone⟩
  · exact (HeapState.regions_setSpan hold hbase).pairwise_iff (fun h ↦ h.symm) |>.mpr h.regions_disjoint

theorem HeapState.regions_setLarge {old : LargeObject} (hold : s.large[index]? = some old)
    (hstart : object.start = old.start) (hsize : object.size = old.size) :
    ({ s with large := s.large.set index object } : HeapState).regions = s.regions := by
  have hregion : (object.start, object.size) = (old.start, old.size) := by rw [hstart, hsize]
  unfold HeapState.regions
  rw [map_set_of_eq hold hregion]

/-- Large objects may be replaced by large objects at the same place. -/
theorem HeapState.Valid.setLarge (h : s.Valid) {old : LargeObject}
    (hold : s.large[index]? = some old) (object : LargeObject) (hstart : object.start = old.start)
    (hsize : object.size = old.size) :
    ({ s with large := s.large.set index object } : HeapState).Valid := by
  have hregion : (s.large.set index object).map (fun object ↦ (object.start, object.size)) =
      s.large.map fun object ↦ (object.start, object.size) :=
    map_set_of_eq hold (by rw [hstart, hsize])
  have hentries : largeEntries (s.large.set index object) = largeEntries s.large := by
    have hzip : ∀ large : List LargeObject,
        largeEntries large = (large.map LargeObject.start).zipIdx := by
      intro large
      rw [List.zipIdx_map]
      rfl
    rw [hzip, hzip, map_set_of_eq hold hstart]
  have hmem : ∀ other ∈ s.large.set index object, ∃ other' ∈ s.large, other.start = other'.start ∧
      other.size = other'.size := by
    intro other hother
    have hin : (other.start, other.size) ∈ s.large.map fun object ↦ (object.start, object.size) := by
      rw [← hregion]
      exact List.mem_map_of_mem hother
    obtain ⟨other', hother', heq⟩ := List.mem_map.mp hin
    simp only [Prod.mk.injEq] at heq
    exact ⟨other', hother', heq.1.symm, heq.2.symm⟩
  refine
    { h with
      large_aligned := ?_
      large_pos := ?_
      regions_disjoint := ?_
      large_index := ?_ }
  · intro other hother
    obtain ⟨other', hother', hs, _⟩ := hmem other hother
    exact hs ▸ h.large_aligned other' hother'
  · intro other hother
    obtain ⟨other', hother', hs, hz⟩ := hmem other hother
    exact hs ▸ hz ▸ h.large_pos other' hother'
  · rw [HeapState.regions_setLarge hold hstart hsize]
    exact h.regions_disjoint
  · intro hclean
    rw [h.large_index hclean, hentries]

theorem HeapState.Valid.prepareLargeIndex (h : s.Valid) : s.prepareLargeIndex.Valid := by
  unfold HeapState.prepareLargeIndex
  split
  · exact { h with large_index := fun _ ↦ rfl }
  · exact h

theorem HeapState.prepareLargeIndex_clean (s : HeapState) :
    s.prepareLargeIndex.largeIndexDirty = false := by
  unfold HeapState.prepareLargeIndex
  split
  · rfl
  · rename_i h
    simpa using h

/-! ## Regions of spans and large objects -/

theorem HeapState.span_region_mem (h : s.span? index = some span) :
    (span.base, spanBytes) ∈ s.regions := by
  apply List.mem_append_left
  rw [List.mem_filterMap]
  exact ⟨some span, List.mem_of_getElem? (HeapState.span?_eq_some.mp h), rfl⟩

theorem HeapState.large_region_mem (h : object ∈ s.large) :
    (object.start, object.size) ∈ s.regions := by
  apply List.mem_append_right
  exact List.mem_map_of_mem h

theorem HeapState.Valid.large_span_disjoint (h : s.Valid) (hspan : s.span? index = some span)
    (hobject : object ∈ s.large) :
    DisjointRegions (span.base, spanBytes) (object.start, object.size) := by
  refine (List.pairwise_append.mp h.regions_disjoint).2.2 _ ?_ _ (List.mem_map_of_mem hobject)
  rw [List.mem_filterMap]
  exact ⟨some span, List.mem_of_getElem? (HeapState.span?_eq_some.mp hspan), rfl⟩

variable {i base start : ℕ}

theorem HeapState.Valid.large_disjoint (h : s.Valid) (hne : i ≠ j) {a b : LargeObject}
    (ha : s.large[i]? = some a) (hb : s.large[j]? = some b) :
    DisjointRegions (a.start, a.size) (b.start, b.size) := by
  have hpairs := List.pairwise_map.mp (List.pairwise_append.mp h.regions_disjoint).2.1
  rw [List.pairwise_iff_getElem] at hpairs
  obtain ⟨hi, rfl⟩ := List.getElem?_eq_some_iff.mp ha
  obtain ⟨hj, rfl⟩ := List.getElem?_eq_some_iff.mp hb
  rcases Nat.lt_or_gt_of_ne hne with hlt | hgt
  · exact hpairs i j hi hj hlt
  · exact (hpairs j i hj hi hgt).symm

theorem HeapState.Valid.index_inj (h : s.Valid) {a b : ℕ × ℕ} (ha : a ∈ s.spanBaseIndex)
    (hb : b ∈ s.spanBaseIndex) (hbase : a.1 = b.1) : a = b := by
  have hnodup : (s.spanBaseIndex.map Prod.fst).Nodup :=
    (List.pairwise_map.mpr h.index_sorted).imp ne_of_lt
  exact List.inj_on_of_nodup_map hnodup ha hb hbase

/-- Distinct spans have distinct bases. -/
theorem HeapState.Valid.index_of_base (h : s.Valid) {a b : Span} (ha : s.span? i = some a)
    (hb : s.span? j = some b) (hbase : a.base = b.base) : i = j := by
  have hi := (h.index_iff a.base i).mpr ⟨a, ha, rfl⟩
  have hj := (h.index_iff a.base j).mpr ⟨b, hb, hbase.symm⟩
  exact congrArg Prod.snd (h.index_inj hi hj rfl)

/-! ## Resolving pointers -/

theorem spanBaseOf_eq_iff (haligned : spanBytes ∣ base) :
    spanBaseOf address = base ↔ base ≤ address ∧ address < base + spanBytes := by
  obtain ⟨k, rfl⟩ := haligned
  unfold spanBaseOf spanBytes
  omega

theorem HeapState.Valid.findBase_eq_some (h : s.Valid) :
    s.findBase base = some index ↔ ∃ span, s.span? index = some span ∧ span.base = base := by
  rw [← h.index_iff]
  unfold HeapState.findBase
  constructor
  · intro hfind
    obtain ⟨entry, hentry, rfl⟩ := Option.map_eq_some_iff.mp hfind
    have hbase : entry.1 = base := by simpa using List.find?_some hentry
    exact hbase ▸ List.mem_of_find?_eq_some hentry
  · intro hmem
    obtain ⟨entry, hentry⟩ : ∃ entry, s.spanBaseIndex.find? (fun entry ↦ entry.1 == base) = some entry := by
      rw [← Option.isSome_iff_exists, List.find?_isSome]
      exact ⟨_, hmem, by simp⟩
    have hbase : entry.1 = base := by simpa using List.find?_some hentry
    rw [hentry, h.index_inj (List.mem_of_find?_eq_some hentry) hmem hbase]
    rfl

theorem mem_largeEntries {large : List LargeObject} :
    (start, index) ∈ largeEntries large ↔ ∃ object, large[index]? = some object ∧ object.start = start := by
  unfold largeEntries
  rw [List.mem_map]
  constructor
  · rintro ⟨⟨object, i⟩, hmem, heq⟩
    simp only [Prod.mk.injEq] at heq
    obtain ⟨rfl, rfl⟩ := heq
    exact ⟨object, List.mem_zipIdx_iff_getElem?.mp hmem, rfl⟩
  · rintro ⟨object, hobject, rfl⟩
    exact ⟨(object, index), List.mem_zipIdx_iff_getElem?.mpr hobject, rfl⟩

/-- In a list sorted by start, the last entry that starts at or before `address` is the greatest of
these entries. -/
theorem getLast?_takeWhile_of_sorted {entries : List (ℕ × ℕ)} (hsorted : entries.Pairwise EntryLe)
    {entry : ℕ × ℕ} (hmem : entry ∈ entries) (hle : entry.1 ≤ address) :
    ∃ last, (entries.takeWhile fun entry ↦ entry.1 ≤ address).getLast? = some last ∧
      EntryLe entry last := by
  induction entries with
  | nil => cases hmem
  | cons head tail ih =>
    obtain ⟨hhead, htail⟩ := List.pairwise_cons.mp hsorted
    have hheadle : head.1 ≤ address := by
      rcases List.mem_cons.mp hmem with rfl | hin
      · exact hle
      · have := hhead entry hin
        unfold EntryLe at this
        omega
    rw [List.takeWhile_cons_of_pos (by simpa using hheadle), List.getLast?_cons]
    refine ⟨_, rfl, ?_⟩
    rcases List.mem_cons.mp hmem with rfl | hin
    · cases hlast : (tail.takeWhile fun entry ↦ entry.1 ≤ address).getLast? with
      | none => exact Or.inr ⟨rfl, le_refl _⟩
      | some last =>
        have hlastmem := List.mem_of_getLast? hlast
        exact hhead last ((List.takeWhile_sublist _).subset hlastmem)
    · obtain ⟨last, hlast, hentry⟩ := ih htail hin
      rw [hlast]
      exact hentry

/-- A large object is found from any address inside it. -/
theorem HeapState.Valid.findLarge_of_contains (h : s.Valid) (hclean : s.largeIndexDirty = false)
    (hobject : s.large[index]? = some object) (hcontains : object.block.Contains address) :
    s.findLarge address = some (object.start, index) := by
  have hmem : (object.start, index) ∈ s.largeIndex := by
    rw [h.large_index hclean, List.mem_insertionSort, mem_largeEntries]
    exact ⟨object, hobject, rfl⟩
  have hsorted : s.largeIndex.Pairwise EntryLe := by
    rw [h.large_index hclean]
    exact List.pairwise_insertionSort _ _
  obtain ⟨last, hlast, hle⟩ := getLast?_takeWhile_of_sorted hsorted hmem hcontains.1
  have hin := List.mem_of_getLast? hlast
  have hlastle : last.1 ≤ address := by simpa using List.mem_takeWhile_imp hin
  have hlastmem := (List.takeWhile_sublist _).subset hin
  rw [h.large_index hclean, List.mem_insertionSort, mem_largeEntries] at hlastmem
  obtain ⟨other, hother, hstart⟩ := hlastmem
  have heq : last.2 = index := by
    by_contra hne
    have hdisjoint := h.large_disjoint hne hother hobject
    have hpos := h.large_pos other (List.mem_of_getElem? hother)
    have hend := hcontains.2
    unfold DisjointRegions at hdisjoint
    unfold EntryLe at hle
    simp only [LargeObject.block] at hdisjoint hend hle
    omega
  rw [heq, hobject] at hother
  cases hother
  rw [HeapState.findLarge, hlast, ← heq, hstart]

theorem HeapState.Valid.contains_of_findLarge (h : s.Valid) (hclean : s.largeIndexDirty = false)
    (hfind : s.findLarge address = some (start, index)) :
    start ≤ address ∧ ∃ object, s.large[index]? = some object ∧ object.start = start := by
  have hin := List.mem_of_getLast? hfind
  have hle := List.mem_takeWhile_imp hin
  have hmem := (List.takeWhile_sublist _).subset hin
  rw [h.large_index hclean, List.mem_insertionSort, mem_largeEntries] at hmem
  exact ⟨by simpa using hle, hmem⟩

theorem HeapState.blockAt_span_eq_some :
    s.blockAt (.span index slot) = some block ↔ ∃ span, s.span? index = some span ∧
      slot < span.nelems ∧ span.allocBits.get slot = true ∧ span.block slot = block := by
  unfold HeapState.blockAt
  cases hspan : s.span? index with
  | none => simp [hspan]
  | some span => simp [hspan, and_assoc]

theorem HeapState.blockAt_large_eq_some :
    s.blockAt (.large index) = some block ↔ ∃ object, s.large[index]? = some object ∧
      object.block = block := by
  simp [HeapState.blockAt]

/-- An address lies in a slot exactly when its offset divided by the slot size is the slot. -/
theorem SpanValid.contains_iff (h : SpanValid span) (hbase : span.base ≤ address) :
    (span.block slot).Contains address ↔ (address - span.base) / span.elemSize = slot := by
  rw [Nat.div_eq_iff h.elemSize_pos]
  have hpos := h.elemSize_pos
  simp only [Block.Contains, Span.block, Span.slotAddress]
  omega

/-- A slot lies inside its span. -/
theorem SpanValid.contains_span (h : SpanValid span) (hslot : slot < span.nelems)
    (hcontains : (span.block slot).Contains address) :
    span.base ≤ address ∧ address < span.base + spanBytes := by
  have hend := h.slot_end_le hslot
  simp only [Block.Contains, Span.block, Span.slotAddress] at hcontains
  omega

/-- A pointer resolves to the block that contains it. -/
theorem HeapState.Valid.classifyPointer_eq_some (h : s.Valid) :
    s.classifyPointer address = some location ↔
      ∃ block, s.blockAt location = some block ∧ block.Contains address := by
  have hlarge : s.prepareLargeIndex.large = s.large := by
    unfold HeapState.prepareLargeIndex
    split <;> rfl
  have hprepared := h.prepareLargeIndex
  have hclean := s.prepareLargeIndex_clean
  unfold HeapState.classifyPointer
  by_cases hzero : address = 0
  · -- No block contains the null address.
    simp only [hzero, if_true, reduceCtorEq, false_iff]
    rintro ⟨block, hblock, hcontains⟩
    cases location with
    | span index slot =>
      obtain ⟨span, hspan, hslot, _, rfl⟩ := HeapState.blockAt_span_eq_some.mp hblock
      have hvalid := h.spans index span hspan
      have := hvalid.contains_span hslot hcontains
      have := hvalid.base_pos
      omega
    | large index =>
      obtain ⟨object, hobject, rfl⟩ := HeapState.blockAt_large_eq_some.mp hblock
      have hpos := h.large_pos object (List.mem_of_getElem? hobject)
      have hle := hcontains.1
      simp only [LargeObject.block] at hle
      omega
  simp only [hzero, if_false]
  cases hfind : s.findBase (spanBaseOf address) with
  | some index =>
    obtain ⟨span, hspan, hbase⟩ := h.findBase_eq_some.mp hfind
    have hvalid := h.spans index span hspan
    have hin := (spanBaseOf_eq_iff hvalid.base_aligned).mp hbase.symm
    simp only [hspan, ← hbase]
    constructor
    · intro hsome
      split at hsome
      · cases hsome
      · rename_i hfree
        simp only [Bool.or_eq_true, decide_eq_true_eq, Bool.not_eq_eq_eq_not, Bool.not_true,
          not_or, not_le, Bool.not_eq_false] at hfree
        cases hsome
        refine ⟨span.block _, HeapState.blockAt_span_eq_some.mpr ⟨span, hspan, hfree.1, hfree.2, rfl⟩, ?_⟩
        exact (hvalid.contains_iff hin.1).mpr rfl
    · rintro ⟨block, hblock, hcontains⟩
      cases location with
      | span i slot =>
        obtain ⟨other, hother, hslot, halloc, rfl⟩ := HeapState.blockAt_span_eq_some.mp hblock
        have hothervalid := h.spans i other hother
        have hbase' := (spanBaseOf_eq_iff hothervalid.base_aligned).mpr
          (hothervalid.contains_span hslot hcontains)
        obtain rfl := h.index_of_base hother hspan (hbase'.symm.trans hbase.symm)
        rw [hspan] at hother
        cases hother
        have hdiv := (hvalid.contains_iff hin.1).mp hcontains
        simp [hdiv, halloc, hslot]
      | large i =>
        obtain ⟨object, hobject, rfl⟩ := HeapState.blockAt_large_eq_some.mp hblock
        have hdisjoint := h.large_span_disjoint hspan (List.mem_of_getElem? hobject)
        simp only [DisjointRegions, Block.Contains, LargeObject.block] at hdisjoint hcontains
        omega
  | none =>
    have hnospan : ∀ index slot block, s.blockAt (.span index slot) = some block →
        ¬ block.Contains address := by
      intro index slot block hblock hcontains
      obtain ⟨span, hspan, hslot, _, rfl⟩ := HeapState.blockAt_span_eq_some.mp hblock
      have hvalid := h.spans index span hspan
      have hbase := (spanBaseOf_eq_iff hvalid.base_aligned).mpr (hvalid.contains_span hslot hcontains)
      rw [h.findBase_eq_some.mpr ⟨span, hspan, hbase.symm⟩] at hfind
      cases hfind
    dsimp only
    constructor
    · intro hsome
      cases hlast : s.prepareLargeIndex.findLarge address with
      | none => simp [hlast] at hsome
      | some entry =>
        obtain ⟨start, index⟩ := entry
        obtain ⟨hle, object, hobject, hstart⟩ := hprepared.contains_of_findLarge hclean hlast
        simp only [hlast, hobject] at hsome
        split at hsome
        · cases hsome
        · rename_i hsize
          cases hsome
          refine ⟨object.block, HeapState.blockAt_large_eq_some.mpr ⟨object, hlarge ▸ hobject, rfl⟩, ?_⟩
          simp only [Block.Contains, LargeObject.block]
          omega
    · rintro ⟨block, hblock, hcontains⟩
      cases location with
      | span index slot => exact (hnospan index slot block hblock hcontains).elim
      | large index =>
        obtain ⟨object, hobject, rfl⟩ := HeapState.blockAt_large_eq_some.mp hblock
        rw [← hlarge] at hobject
        have hlast := hprepared.findLarge_of_contains hclean hobject hcontains
        have hsize : ¬ object.size ≤ address - object.start := by
          simp only [Block.Contains, LargeObject.block] at hcontains
          omega
        simp [hlast, hobject, hsize]

/-- An address lies in at most one block. -/
theorem HeapState.Valid.location_unique (h : s.Valid) {location' : ObjectLocation} {block' : Block}
    (hblock : s.blockAt location = some block) (hblock' : s.blockAt location' = some block')
    (hcontains : block.Contains address) (hcontains' : block'.Contains address) :
    location = location' := by
  have hleft := h.classifyPointer_eq_some.mpr ⟨block, hblock, hcontains⟩
  have hright := h.classifyPointer_eq_some.mpr ⟨block', hblock', hcontains'⟩
  rw [hleft] at hright
  exact Option.some.inj hright

theorem HeapState.Valid.block_contains_start (h : s.Valid)
    (hblock : s.blockAt location = some block) : block.Contains block.start := by
  refine ⟨le_refl _, ?_⟩
  cases location with
  | span index slot =>
    obtain ⟨span, hspan, _, _, rfl⟩ := HeapState.blockAt_span_eq_some.mp hblock
    have := (h.spans index span hspan).elemSize_pos
    simp only [Span.block]
    omega
  | large index =>
    obtain ⟨object, hobject, rfl⟩ := HeapState.blockAt_large_eq_some.mp hblock
    have := (h.large_pos object (List.mem_of_getElem? hobject)).2
    simp only [LargeObject.block]
    omega

end Pon.Gc
