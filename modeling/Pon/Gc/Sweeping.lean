import Pon.Gc.HeapValid

/-!
# Sweeping

The sweep visits the spans in the order of the span table and then the large objects. It keeps the
marked and the young blocks, and the memory that it detaches is memory that the heap has occupied.
-/

namespace Pon.Gc

/-- Every span of `s'` is a span of `s` that has the same slots and has not been handed out further. -/
def SpansKept (s s' : HeapState) : Prop :=
  ∀ index span', s'.span? index = some span' → ∃ span, s.span? index = some span ∧
    span.base = span'.base ∧ span.elemSize = span'.elemSize ∧
      span.zeroedWatermark = span'.zeroedWatermark

variable {s : HeapState}

theorem SpansKept.trans {s' s'' : HeapState} (h : SpansKept s s') (h' : SpansKept s' s'') :
    SpansKept s s'' := by
  intro index span'' hspan''
  obtain ⟨span', hspan', hbase', helem', hwatermark'⟩ := h' index span'' hspan''
  obtain ⟨span, hspan, hbase, helem, hwatermark⟩ := h index span' hspan'
  exact ⟨span, hspan, hbase.trans hbase', helem.trans helem', hwatermark.trans hwatermark'⟩

/-! ## Releasing a span -/

theorem mem_eraseP_of_sorted {entries : List (ℕ × ℕ)} (hsorted : entries.Pairwise fun a b ↦ a.1 < b.1)
    {base : ℕ} {entry : ℕ × ℕ} :
    entry ∈ entries.eraseP (fun entry ↦ entry.1 == base) ↔ entry ∈ entries ∧ entry.1 ≠ base := by
  induction entries with
  | nil => simp
  | cons head tail ih =>
    obtain ⟨hhead, htail⟩ := List.pairwise_cons.mp hsorted
    by_cases hbase : head.1 = base
    · rw [List.eraseP_cons_of_pos (by simpa using hbase), List.mem_cons]
      constructor
      · intro hmem
        have := hhead entry hmem
        exact ⟨Or.inr hmem, by omega⟩
      · rintro ⟨rfl | hmem, hne⟩
        · exact (hne hbase).elim
        · exact hmem
    · rw [List.eraseP_cons_of_neg (by simpa using hbase), List.mem_cons, List.mem_cons, ih htail]
      constructor
      · rintro (rfl | ⟨hmem, hne⟩)
        · exact ⟨Or.inl rfl, hbase⟩
        · exact ⟨Or.inr hmem, hne⟩
      · rintro ⟨rfl | hmem, hne⟩
        · exact Or.inl rfl
        · exact Or.inr ⟨hmem, hne⟩

theorem HeapState.span?_releaseSpan (index base j : ℕ) :
    (s.releaseSpan index base).span? j = if j = index then none else s.span? j := by
  unfold HeapState.span? HeapState.releaseSpan
  rw [List.getElem?_set]
  by_cases hj : index = j
  · subst hj
    by_cases hlt : index < s.spans.length <;> simp [hlt]
  · simp [hj, Ne.symm hj]

variable {index : ℕ} {span : Span}

theorem HeapState.regions_releaseSpan (hspan : s.span? index = some span) :
    ((s.releaseSpan index span.base).regions ++ [(span.base, spanBytes)]).Perm s.regions := by
  have hperm := filterMap_set_perm (fun span ↦ span.map fun span : Span ↦ (span.base, spanBytes))
    (HeapState.span?_eq_some.mp hspan) none
  exact (List.perm_append_singleton _ _).trans (hperm.append_right _)

theorem HeapState.Valid.releaseSpan (h : s.Valid)
    (hspan : s.span? index = some span) (hopen : ∀ c, s.openSpan c ≠ some index)
    (hstacks : ∀ c, index ∉ s.partialSpans c) : (s.releaseSpan index span.base).Valid := by
  have hspan? := HeapState.span?_releaseSpan (s := s) index span.base
  have hkeep : ∀ c j, j ≠ index → s.HasSpan c j → (s.releaseSpan index span.base).HasSpan c j := by
    rintro c j hne ⟨other, hother, hc⟩
    exact ⟨other, by rw [hspan?, if_neg hne, hother], hc⟩
  refine
    { h with
      spans := ?_
      index_sorted := ?_
      index_iff := ?_
      free_unused := ?_
      free_nodup := ?_
      open_exists := ?_
      partial_exists := ?_
      regions_disjoint := ?_ }
  · intro j other hother
    rw [hspan?] at hother
    split at hother
    · cases hother
    · exact h.spans j other hother
  · exact h.index_sorted.sublist List.eraseP_sublist
  · intro base j
    change (base, j) ∈ s.spanBaseIndex.eraseP _ ↔ _
    rw [mem_eraseP_of_sorted h.index_sorted, h.index_iff, hspan?]
    by_cases hj : j = index
    · subst hj
      simp only [hspan, Option.some.injEq, exists_eq_left', if_true, reduceCtorEq, false_and,
        exists_false, iff_false, not_and, not_not]
      exact Eq.symm
    · simp only [hj, if_false, and_iff_left_iff_imp]
      rintro ⟨other, hother, rfl⟩ hbase
      exact hj (h.index_of_base hother hspan hbase)
  · intro j hj
    rw [hspan?]
    rcases List.mem_cons.mp hj with rfl | hmem
    · refine ⟨?_, if_pos rfl⟩
      simpa [HeapState.releaseSpan] using HeapState.lt_of_span? hspan
    · obtain ⟨hlt, hnone⟩ := h.free_unused j hmem
      refine ⟨by simpa [HeapState.releaseSpan] using hlt, ?_⟩
      split
      · rfl
      · exact hnone
  · refine List.nodup_cons.mpr ⟨fun hmem ↦ ?_, h.free_nodup⟩
    have hnone := (h.free_unused index hmem).2
    rw [hspan] at hnone
    cases hnone
  · intro c j hj
    apply hkeep c j _ (h.open_exists c j hj)
    rintro rfl
    exact hopen c hj
  · intro c j hj
    apply hkeep c j _ (h.partial_exists c j hj)
    rintro rfl
    exact hstacks c hj
  · have hpairs := (HeapState.regions_releaseSpan hspan).pairwise_iff (fun h ↦ h.symm) |>.mpr
      h.regions_disjoint
    exact (List.pairwise_append.mp hpairs).1

theorem HeapState.Valid.pushPartial (h : s.Valid)
    (hspan : s.span? index = some span) : (s.pushPartial span.sizeClass index).Valid := by
  refine { h with partial_exists := ?_ }
  intro c j hj
  simp only [HeapState.pushPartial] at hj
  by_cases hc : c = span.sizeClass
  · subst hc
    rw [Function.update_self] at hj
    rcases List.mem_cons.mp hj with rfl | hmem
    · exact ⟨span, hspan, rfl⟩
    · exact h.partial_exists _ j hmem
  · rw [Function.update_of_ne hc] at hj
    exact h.partial_exists c j hj

/-! ## The sweep over the spans -/

/-- State of the sweep of `s` before the span at `k`. -/
structure Sweeping (s : HeapState) (k : ℕ) (sweep : Sweep) : Prop where
  valid : sweep.heap.Valid
  types : sweep.heap.types = s.types
  pending : sweep.heap.pendingFinalizerRoots = s.pendingFinalizerRoots
  large : sweep.heap.large = s.large
  spanQueue : sweep.heap.spanQueue = s.spanQueue
  largeQueue : sweep.heap.largeQueue = s.largeQueue
  open_none : ∀ c, sweep.heap.openSpan c = none
  partial_lt : ∀ c, ∀ index ∈ sweep.heap.partialSpans c, index < k
  todo : ∀ index, k ≤ index → sweep.heap.span? index = s.span? index
  unused : ∀ index < k, s.span? index = none → sweep.heap.span? index = none
  done : ∀ index < k, ∀ span, s.span? index = some span → sweep.heap.span? index = some span.swept ∨
    sweep.heap.span? index = none ∧ span.keepBits.count = 0
  regions : (sweep.heap.regions ++ sweep.detached).Perm s.regions

theorem Sweeping.start (h : s.Valid) :
    Sweeping s 0
      { heap := { s with openSpan := fun _ ↦ none, partialSpans := fun _ ↦ [] }
        keptEmpty := fun _ ↦ false
        detached := [] } where
  valid :=
    { h with
      open_exists := fun _ _ hopen ↦ by cases hopen
      partial_exists := fun _ _ hmem ↦ by cases hmem }
  types := rfl
  pending := rfl
  large := rfl
  spanQueue := rfl
  largeQueue := rfl
  open_none _ := rfl
  partial_lt _ _ hmem := by cases hmem
  todo _ _ := rfl
  unused _ hlt := (Nat.not_lt_zero _ hlt).elim
  done _ hlt := (Nat.not_lt_zero _ hlt).elim
  regions := by rw [List.append_nil]; exact List.Perm.refl _

variable {s : HeapState} {k : ℕ} {sweep : Sweep}

/-- The span at `k` is replaced by the swept span. -/
theorem Sweeping.setSwept (h : Sweeping s k sweep) (hspan : s.span? k = some span) :
    Sweeping s (k + 1) { sweep with heap := sweep.heap.setSpan k span.swept } := by
  have hcurrent : sweep.heap.span? k = some span := (h.todo k (le_refl k)).trans hspan
  have hset := HeapState.span?_setSpan (HeapState.lt_of_span? hcurrent) span.swept
  have hbase : span.swept.base = span.base := rfl
  refine
    { h with
      valid := h.valid.setSpan hcurrent (h.valid.spans k span hcurrent).swept rfl rfl
      partial_lt := fun c index hmem ↦ Nat.lt_succ_of_lt (h.partial_lt c index hmem)
      todo := ?_
      unused := ?_
      done := ?_
      regions := ((HeapState.regions_setSpan hcurrent hbase).append_right _).trans h.regions }
  · intro index hle
    rw [hset, if_neg (by omega)]
    exact h.todo index (by omega)
  · intro index hlt hnone
    have hne : index ≠ k := by
      rintro rfl
      rw [hspan] at hnone
      cases hnone
    rw [hset, if_neg hne]
    exact h.unused index (by omega) hnone
  · intro index hlt other hother
    rw [hset]
    by_cases hindex : index = k
    · subst hindex
      rw [hspan] at hother
      cases hother
      exact Or.inl (if_pos rfl)
    · rw [if_neg hindex]
      exact h.done index (by omega) other hother

theorem Sweeping.pushPartial (h : Sweeping s (k + 1) sweep) (hspan : sweep.heap.span? k = some span)
    (keptEmpty : ℕ → Bool) :
    Sweeping s (k + 1) { sweep with heap := sweep.heap.pushPartial span.sizeClass k, keptEmpty } := by
  refine { h with valid := h.valid.pushPartial hspan, partial_lt := ?_ }
  intro c index hmem
  simp only [HeapState.pushPartial] at hmem
  by_cases hc : c = span.sizeClass
  · subst hc
    rw [Function.update_self] at hmem
    rcases List.mem_cons.mp hmem with rfl | hold
    · omega
    · exact h.partial_lt _ index hold
  · rw [Function.update_of_ne hc] at hmem
    exact h.partial_lt c index hmem

theorem Sweeping.releaseSpan (h : Sweeping s (k + 1) sweep) (hspan : s.span? k = some span)
    (hswept : sweep.heap.span? k = some span.swept) (hempty : span.keepBits.count = 0)
    (hstacks : ∀ c, k ∉ sweep.heap.partialSpans c) :
    Sweeping s (k + 1)
      { sweep with
        heap := sweep.heap.releaseSpan k span.base
        detached := sweep.detached ++ [(span.base, spanBytes)] } := by
  have hspan? := HeapState.span?_releaseSpan (s := sweep.heap) k span.base
  have hvalid := h.valid.releaseSpan hswept (fun c ↦ by simp [h.open_none c]) hstacks
  have hregions := HeapState.regions_releaseSpan hswept
  refine { h with valid := hvalid, todo := ?_, unused := ?_, done := ?_, regions := ?_ }
  · intro index hle
    rw [hspan?, if_neg (by omega)]
    exact h.todo index hle
  · intro index hlt hnone
    rw [hspan?]
    split
    · rfl
    · exact h.unused index hlt hnone
  · intro index hlt other hother
    rw [hspan?]
    by_cases hindex : index = k
    · subst hindex
      rw [hspan] at hother
      cases hother
      exact Or.inr ⟨if_pos rfl, hempty⟩
    · rw [if_neg hindex]
      exact h.done index hlt other hother
  · calc
      ((sweep.heap.releaseSpan k span.base).regions ++
          (sweep.detached ++ [(span.base, spanBytes)])).Perm
          ((sweep.heap.releaseSpan k span.base).regions ++
            ([(span.base, spanBytes)] ++ sweep.detached)) :=
        List.Perm.append_left _ List.perm_append_comm
      _ = ((sweep.heap.releaseSpan k span.base).regions ++ [(span.base, spanBytes)]) ++
          sweep.detached := (List.append_assoc _ _ _).symm
      _ |>.Perm (sweep.heap.regions ++ sweep.detached) := hregions.append_right _
      _ |>.Perm s.regions := h.regions

theorem Sweeping.sweepSpan (h : Sweeping s k sweep) : Sweeping s (k + 1) (sweep.sweepSpan k) := by
  unfold Sweep.sweepSpan
  have hcurrent := h.todo k (le_refl k)
  cases hspan : s.span? k with
  | none =>
    rw [hspan] at hcurrent
    simp only [hcurrent]
    refine
      { h with
        partial_lt := fun c index hmem ↦ Nat.lt_succ_of_lt (h.partial_lt c index hmem)
        todo := fun index hle ↦ h.todo index (by omega)
        unused := ?_
        done := ?_ }
    · intro index hlt hnone
      by_cases hindex : index = k
      · exact hindex ▸ hcurrent
      · exact h.unused index (by omega) hnone
    · intro index hlt other hother
      have hne : index ≠ k := by
        rintro rfl
        rw [hspan] at hother
        cases hother
      exact h.done index (by omega) other hother
  | some span =>
    rw [hspan] at hcurrent
    simp only [hcurrent]
    have hnext := h.setSwept hspan
    have hswept : (sweep.heap.setSpan k span.swept).span? k = some span.swept := by
      rw [HeapState.span?_setSpan (HeapState.lt_of_span? hcurrent), if_pos rfl]
    split
    · rename_i hempty
      split
      · exact hnext.releaseSpan hspan hswept hempty fun c hmem ↦ lt_irrefl _ (h.partial_lt c k hmem)
      · exact hnext.pushPartial hswept _
    · split
      · exact hnext.pushPartial hswept _
      · exact hnext

theorem Sweeping.foldl (h : Sweeping s 0 sweep) (n : ℕ) :
    Sweeping s n ((List.range n).foldl Sweep.sweepSpan sweep) := by
  induction n with
  | zero => exact h
  | succ n ih =>
    rw [List.range_succ, List.foldl_append]
    exact ih.sweepSpan

/-! ## The whole sweep -/

/-- What a sweep leaves: the marked and the young blocks, none of them young any more. -/
structure Swept (s s' : HeapState) (detached : List (ℕ × ℕ)) : Prop where
  valid : s'.Valid
  quiet : s'.Quiet
  types : s'.types = s.types
  pending : s'.pendingFinalizerRoots = s.pendingFinalizerRoots
  kept : SpansKept s s'
  allocated : ∀ block', s'.Allocated block' ↔ ∃ location block, s.blockAt location = some block ∧
    (s.marked location = true ∨ block.young = true) ∧ block' = { block with young := false }
  regions : (s'.regions ++ detached).Perm s.regions

theorem Span.block_swept (span : Span) (slot : ℕ) :
    span.swept.block slot = { span.block slot with young := false } := by
  simp [Span.block, Span.swept, Span.slotAddress]

theorem Sweeping.span?_eq_some (h : Sweeping s s.spans.length sweep) {span' : Span} :
    sweep.heap.span? index = some span' → ∃ span, s.span? index = some span ∧ span' = span.swept := by
  intro hspan'
  by_cases hlt : index < s.spans.length
  · cases hspan : s.span? index with
    | none =>
      rw [h.unused index hlt hspan] at hspan'
      cases hspan'
    | some span =>
      rcases h.done index hlt span hspan with hswept | ⟨hnone, _⟩
      · rw [hswept] at hspan'
        exact ⟨span, rfl, (Option.some.inj hspan').symm⟩
      · rw [hnone] at hspan'
        cases hspan'
  · have hsame := h.todo index (not_lt.mp hlt)
    rw [hspan'] at hsame
    exact (hlt (HeapState.lt_of_span? hsame.symm)).elim

/-- A slot survives the sweep exactly when it is marked or young. -/
theorem Sweeping.blockAt_span (h : Sweeping s s.spans.length sweep) (hs : s.Valid) {slot : ℕ}
    {block' : Block} :
    sweep.heap.blockAt (.span index slot) = some block' ↔
      ∃ block, s.blockAt (.span index slot) = some block ∧
        (s.marked (.span index slot) = true ∨ block.young = true) ∧
        block' = { block with young := false } := by
  simp only [HeapState.blockAt_span_eq_some]
  constructor
  · rintro ⟨span', hspan', hslot, halloc, rfl⟩
    obtain ⟨span, hspan, rfl⟩ := h.span?_eq_some hspan'
    have hkeep : span.keepBits.get slot = true := halloc
    rw [(hs.spans index span hspan).get_keepBits, Bool.and_eq_true, Bool.or_eq_true] at hkeep
    refine ⟨span.block slot, ⟨span, hspan, hslot, hkeep.1, rfl⟩, ?_, span.block_swept slot⟩
    simpa [HeapState.marked, hspan, Span.block] using hkeep.2
  · rintro ⟨_, ⟨span, hspan, hslot, halloc, rfl⟩, hsurvives, rfl⟩
    have hkeep : span.keepBits.get slot = true := by
      rw [(hs.spans index span hspan).get_keepBits, Bool.and_eq_true, Bool.or_eq_true]
      exact ⟨halloc, by simpa [HeapState.marked, hspan, Span.block] using hsurvives⟩
    rcases h.done index (HeapState.lt_of_span? hspan) span hspan with hswept | ⟨_, hempty⟩
    · exact ⟨span.swept, hswept, hslot, hkeep, span.block_swept slot⟩
    · rw [Bitmap.get_eq_false_of_count_eq_zero hempty] at hkeep
      cases hkeep

/-- Large objects as the sweep keeps them. -/
def LargeObject.kept (object : LargeObject) : LargeObject :=
  { object with color := .white, young := false }

theorem Sweep.sweepLarge_eq (sweep : Sweep) :
    sweep.sweepLarge =
      { sweep with
        heap :=
          { sweep.heap with
            large := (sweep.heap.large.filter LargeObject.survives).map LargeObject.kept
            largeIndexDirty := true }
        detached := sweep.detached ++ (sweep.heap.large.filter (!LargeObject.survives ·)).map
          fun object ↦ (object.start, object.size) } := by
  simp only [Sweep.sweepLarge, List.partition_eq_filter_filter]
  rfl

/-- The regions of the large objects are split between the kept and the detached ones. -/
theorem Sweep.regions_sweepLarge (sweep : Sweep) :
    (sweep.sweepLarge.heap.regions ++ sweep.sweepLarge.detached).Perm
      (sweep.heap.regions ++ sweep.detached) := by
  have hkept : (fun object : LargeObject ↦ (object.start, object.size)) ∘ LargeObject.kept =
      fun object ↦ (object.start, object.size) := rfl
  have hsplit := (List.filter_append_perm LargeObject.survives sweep.heap.large).map
    fun object ↦ (object.start, object.size)
  rw [List.map_append] at hsplit
  rw [Sweep.sweepLarge_eq]
  simp only [HeapState.regions, List.map_map, hkept, List.append_assoc]
  apply List.Perm.append_left
  refine (List.Perm.append_left _ List.perm_append_comm).trans ?_
  rw [← List.append_assoc]
  exact hsplit.append_right _

/-- A large object survives the sweep exactly when it is marked or young. -/
theorem Sweep.allocated_large (sweep : Sweep) (block' : Block) :
    (∃ index, sweep.sweepLarge.heap.blockAt (.large index) = some block') ↔
      ∃ index block, sweep.heap.blockAt (.large index) = some block ∧
        (sweep.heap.marked (.large index) = true ∨ block.young = true) ∧
        block' = { block with young := false } := by
  simp only [HeapState.blockAt_large_eq_some, Sweep.sweepLarge_eq]
  constructor
  · rintro ⟨index, object', hobject', rfl⟩
    have hmem := List.mem_of_getElem? hobject'
    obtain ⟨object, hfilter, rfl⟩ := List.mem_map.mp hmem
    obtain ⟨hobject, hsurvives⟩ := List.mem_filter.mp hfilter
    obtain ⟨i, hi⟩ := List.getElem?_of_mem hobject
    refine ⟨i, object.block, ⟨object, hi, rfl⟩, ?_, rfl⟩
    simpa [HeapState.marked, hi, LargeObject.survives, LargeObject.block] using hsurvives
  · rintro ⟨i, _, ⟨object, hi, rfl⟩, hsurvives, rfl⟩
    have hkept : object.kept ∈ (sweep.heap.large.filter LargeObject.survives).map LargeObject.kept := by
      apply List.mem_map_of_mem
      refine List.mem_filter.mpr ⟨List.mem_of_getElem? hi, ?_⟩
      simpa [HeapState.marked, hi, LargeObject.survives, LargeObject.block] using hsurvives
    obtain ⟨index, hindex⟩ := List.getElem?_of_mem hkept
    exact ⟨index, object.kept, hindex, rfl⟩

/-- The large objects are swept when all spans are. -/
theorem Sweeping.swept (hdone : Sweeping s s.spans.length sweep) (h : s.Valid) (hspans : s.spanQueue = [])
    (hlarge : s.largeQueue = []) : Swept s sweep.sweepLarge.heap sweep.sweepLarge.detached := by
  have hregions := sweep.regions_sweepLarge
  have hkept : ∀ object' ∈ sweep.sweepLarge.heap.large, ∃ object ∈ s.large, object' = object.kept := by
    intro object' hobject'
    rw [Sweep.sweepLarge_eq] at hobject'
    obtain ⟨object, hfilter, rfl⟩ := List.mem_map.mp hobject'
    exact ⟨object, hdone.large ▸ (List.mem_filter.mp hfilter).1, rfl⟩
  refine
    { valid := ?_
      quiet := ?_
      types := by simpa [Sweep.sweepLarge_eq] using hdone.types
      pending := by simpa [Sweep.sweepLarge_eq] using hdone.pending
      kept := ?_
      allocated := ?_
      regions := hregions.trans hdone.regions }
  · have hdisjoint := ((hregions.trans hdone.regions).pairwise_iff (fun h ↦ h.symm)).mpr
      h.regions_disjoint
    have hold := hdone.valid
    refine
      { hold with
        large_aligned := ?_
        large_pos := ?_
        regions_disjoint := (List.pairwise_append.mp hdisjoint).1
        large_index := fun hclean ↦ by cases hclean }
    · intro object' hobject'
      obtain ⟨object, hobject, rfl⟩ := hkept object' hobject'
      exact h.large_aligned object hobject
    · intro object' hobject'
      obtain ⟨object, hobject, rfl⟩ := hkept object' hobject'
      exact h.large_pos object hobject
  · refine ⟨?_, ?_, hdone.spanQueue.trans hspans, hdone.largeQueue.trans hlarge⟩
    · intro index span' hspan'
      obtain ⟨span, _, rfl⟩ := hdone.span?_eq_some hspan'
      exact spanQuiet_swept span
    · intro object' hobject'
      obtain ⟨object, _, rfl⟩ := hkept object' hobject'
      rfl
  · intro index span' hspan'
    obtain ⟨span, hspan, rfl⟩ := hdone.span?_eq_some hspan'
    exact ⟨span, hspan, rfl, rfl, rfl⟩
  · intro block'
    have hlargeAt : ∀ index, sweep.heap.blockAt (.large index) = s.blockAt (.large index) := by
      intro index
      simp only [HeapState.blockAt, hdone.large]
    have hlargeMarked : ∀ index, sweep.heap.marked (.large index) = s.marked (.large index) := by
      intro index
      simp only [HeapState.marked, hdone.large]
    have hlargeIff := sweep.allocated_large block'
    simp only [hlargeAt, hlargeMarked] at hlargeIff
    constructor
    · rintro ⟨location, hblock⟩
      cases location with
      | span index slot =>
        obtain ⟨block, hold, hsurvives, heq⟩ := (hdone.blockAt_span h).mp hblock
        exact ⟨.span index slot, block, hold, hsurvives, heq⟩
      | large index =>
        obtain ⟨i, block, hold, hsurvives, heq⟩ := hlargeIff.mp ⟨index, hblock⟩
        exact ⟨.large i, block, hold, hsurvives, heq⟩
    · rintro ⟨location, block, hold, hsurvives, heq⟩
      cases location with
      | span index slot =>
        exact ⟨.span index slot, (hdone.blockAt_span h).mpr ⟨block, hold, hsurvives, heq⟩⟩
      | large index =>
        obtain ⟨i, hi⟩ := hlargeIff.mpr ⟨index, block, hold, hsurvives, heq⟩
        exact ⟨.large i, hi⟩

/-- The sweep keeps the marked and the young blocks and detaches only memory that it has freed. -/
theorem HeapState.Valid.swept (h : s.Valid) (hspans : s.spanQueue = []) (hlarge : s.largeQueue = []) :
    Swept s s.sweep.1 s.sweep.2 :=
  ((Sweeping.start h).foldl s.spans.length).swept h hspans hlarge

end Pon.Gc
