import Pon.Gc.HeapValid

/-!
# Allocation keeps the heap valid

Every allocation returns after at most two rounds of the slot search. Its block is aligned, large
enough, zero and disjoint from all others, and the rest of the heap is as before: `Allocates` says
so for small and for large requests alike.
-/

namespace Pon.Gc

/-! ## New spans -/

variable {index sizeClass fresh address size slot typeId : ℕ} {s : HeapState} {mem : Memory}
  {w : World} {span : Span}

variable {base start : ℕ} {entries : List (ℕ × ℕ)} {info : GcTypeInfo}

theorem mem_insertBase {entry : ℕ × ℕ} :
    entry ∈ insertBase base index entries ↔ entry = (base, index) ∨ entry ∈ entries := by
  unfold insertBase
  rw [List.mem_append, List.mem_cons]
  conv_rhs => rw [← List.takeWhile_append_dropWhile (p := fun entry ↦ entry.1 < base) (l := entries),
    List.mem_append]
  tauto

theorem pairwise_insertBase (hsorted : entries.Pairwise fun a b ↦ a.1 < b.1)
    (hnew : ∀ entry ∈ entries, entry.1 ≠ base) :
    (insertBase base index entries).Pairwise fun a b ↦ a.1 < b.1 := by
  unfold insertBase
  induction entries with
  | nil => simp
  | cons head tail ih =>
    obtain ⟨hhead, htail⟩ := List.pairwise_cons.mp hsorted
    have hrest := ih htail fun entry hentry ↦ hnew entry (List.mem_cons_of_mem _ hentry)
    by_cases hlt : head.1 < base
    · rw [List.takeWhile_cons_of_pos (by simpa using hlt),
        List.dropWhile_cons_of_pos (by simpa using hlt), List.cons_append, List.pairwise_cons]
      refine ⟨fun entry hentry ↦ ?_, hrest⟩
      rcases mem_insertBase.mp hentry with rfl | hmem
      · exact hlt
      · exact hhead entry hmem
    · rw [List.takeWhile_cons_of_neg (by simpa using hlt),
        List.dropWhile_cons_of_neg (by simpa using hlt), List.nil_append, List.pairwise_cons]
      have hle : base < head.1 := by
        have := hnew head List.mem_cons_self
        omega
      refine ⟨fun entry hentry ↦ ?_, hsorted⟩
      rcases List.mem_cons.mp hentry with rfl | hmem
      · exact hle
      · exact hle.trans (hhead entry hmem)

/-- The slot of the span table that a new span gets was not in use. -/
theorem HeapState.Valid.span?_newSpan (h : s.Valid) (sizeClass fresh : ℕ) :
    s.span? (s.newSpan sizeClass fresh).2 = none ∧ ∀ j, (s.newSpan sizeClass fresh).1.span? j =
      if j = (s.newSpan sizeClass fresh).2 then some (Span.new sizeClass fresh) else s.span? j := by
  unfold HeapState.newSpan
  cases hfree : s.spanSlotsFree with
  | nil =>
    refine ⟨?_, fun j ↦ ?_⟩
    · simp [HeapState.span?]
    · dsimp only [HeapState.span?]
      rw [List.getElem?_append]
      split
      · rename_i hlt
        simp [Nat.ne_of_lt hlt]
      · rename_i hge
        by_cases hj : j = s.spans.length
        · simp [hj]
        · obtain ⟨d, hd⟩ : ∃ d, j - s.spans.length = d + 1 := ⟨j - s.spans.length - 1, by omega⟩
          simp [hj, hd, List.getElem?_eq_none (not_lt.mp hge)]
  | cons index rest =>
    obtain ⟨hlt, hnone⟩ := h.free_unused index (by rw [hfree]; exact List.mem_cons_self)
    refine ⟨hnone, fun j ↦ ?_⟩
    exact HeapState.span?_setSpan hlt (Span.new sizeClass fresh) j

theorem HeapState.Valid.regions_newSpan (h : s.Valid) (sizeClass fresh : ℕ) :
    (s.newSpan sizeClass fresh).1.regions.Perm ((fresh, spanBytes) :: s.regions) := by
  unfold HeapState.newSpan
  cases hfree : s.spanSlotsFree with
  | nil =>
    simp only [HeapState.regions, List.filterMap_append, List.append_assoc]
    exact List.perm_middle
  | cons index rest =>
    obtain ⟨hlt, hnone⟩ := h.free_unused index (by rw [hfree]; exact List.mem_cons_self)
    have hold : s.spans[index]? = some none := by
      rw [List.getElem?_eq_getElem hlt]
      simp only [HeapState.span?, List.getElem?_eq_getElem hlt, Option.join_some] at hnone
      rw [hnone]
    have hperm := filterMap_set_perm (fun span ↦ span.map fun span : Span ↦ (span.base, spanBytes))
      hold (some (Span.new sizeClass fresh))
    exact hperm.append_right _

/-- The memory at `fresh` is what the system allocator may return for a span. -/
structure FreshSpan (s : HeapState) (fresh : ℕ) : Prop where
  pos : 0 < fresh
  aligned : spanBytes ∣ fresh
  disjoint : ∀ region ∈ s.regions, DisjointRegions (fresh, spanBytes) region

theorem HeapState.Valid.newSpan (h : s.Valid) (hclass : sizeClass < numSizeClasses)
    (hfresh : FreshSpan s fresh) :
    (s.newSpan sizeClass fresh).1.Valid := by
  obtain ⟨hunused, hspan?⟩ := h.span?_newSpan sizeClass fresh
  have hregions := h.regions_newSpan sizeClass fresh
  have hnewBase : ∀ entry ∈ s.spanBaseIndex, entry.1 ≠ fresh := by
    rintro ⟨base, index⟩ hentry rfl
    obtain ⟨span, hspan, hbase⟩ := (h.index_iff _ _).mp hentry
    have hdisjoint := hfresh.disjoint _ (HeapState.span_region_mem hspan)
    simp only [DisjointRegions, hbase, spanBytes] at hdisjoint
    omega
  have hindex : (s.newSpan sizeClass fresh).1.spanBaseIndex =
      insertBase fresh (s.newSpan sizeClass fresh).2 s.spanBaseIndex := by
    unfold HeapState.newSpan
    split <;> rfl
  have hkeep : ∀ c j, s.HasSpan c j → (s.newSpan sizeClass fresh).1.HasSpan c j := by
    rintro c j ⟨span, hspan, hc⟩
    refine ⟨span, ?_, hc⟩
    rw [hspan?, if_neg, hspan]
    rintro rfl
    rw [hunused] at hspan
    cases hspan
  have hsame : (s.newSpan sizeClass fresh).1.openSpan = s.openSpan ∧
      (s.newSpan sizeClass fresh).1.partialSpans = s.partialSpans ∧
      (s.newSpan sizeClass fresh).1.large = s.large ∧
      (s.newSpan sizeClass fresh).1.types = s.types ∧
      (s.newSpan sizeClass fresh).1.largeIndexDirty = s.largeIndexDirty ∧
      (s.newSpan sizeClass fresh).1.largeIndex = s.largeIndex := by
    unfold HeapState.newSpan
    split <;> exact ⟨rfl, rfl, rfl, rfl, rfl, rfl⟩
  obtain ⟨hopen, hstacks, hlarge, htypes, hdirty, hlargeIndex⟩ := hsame
  have hfree : ∀ j ∈ (s.newSpan sizeClass fresh).1.spanSlotsFree,
      j < (s.newSpan sizeClass fresh).1.spans.length ∧ j ∈ s.spanSlotsFree ∧
        j ≠ (s.newSpan sizeClass fresh).2 := by
    unfold HeapState.newSpan
    cases hfree : s.spanSlotsFree with
    | nil => simp
    | cons index rest =>
      intro j hj
      have hmem : j ∈ s.spanSlotsFree := by
        rw [hfree]
        exact List.mem_cons_of_mem _ hj
      have hnodup := h.free_nodup
      rw [hfree, List.nodup_cons] at hnodup
      refine ⟨by simpa using (h.free_unused j hmem).1, hfree ▸ hmem, ?_⟩
      rintro rfl
      exact hnodup.1 hj
  refine
    { types_length := htypes ▸ h.types_length
      spans := ?_
      index_sorted := ?_
      index_iff := ?_
      free_unused := ?_
      free_nodup := ?_
      open_exists := fun c j hj ↦ hkeep c j (h.open_exists c j (hopen ▸ hj))
      partial_exists := fun c j hj ↦ hkeep c j (h.partial_exists c j (hstacks ▸ hj))
      large_aligned := fun object hobject ↦ h.large_aligned object (hlarge ▸ hobject)
      large_pos := fun object hobject ↦ h.large_pos object (hlarge ▸ hobject)
      regions_disjoint := ?_
      large_index := ?_ }
  · intro j span hspan
    rw [hspan?] at hspan
    split at hspan
    · cases hspan
      exact spanValid_new hclass hfresh.pos hfresh.aligned
    · exact h.spans j span hspan
  · rw [hindex]
    exact pairwise_insertBase h.index_sorted hnewBase
  · intro base j
    rw [hindex, mem_insertBase, h.index_iff, hspan?, Prod.mk.injEq]
    split
    · rename_i hj
      subst hj
      simp only [hunused, Option.some.injEq, exists_eq_left', reduceCtorEq, false_and, exists_false,
        or_false, and_true]
      exact eq_comm
    · rename_i hj
      simp [hj]
  · intro j hj
    obtain ⟨hlt, hmem, hne⟩ := hfree j hj
    refine ⟨hlt, ?_⟩
    rw [hspan?, if_neg hne]
    exact (h.free_unused j hmem).2
  · have hnodup := h.free_nodup
    unfold HeapState.newSpan
    cases hfree' : s.spanSlotsFree with
    | nil => simp
    | cons index rest =>
      rw [hfree', List.nodup_cons] at hnodup
      exact hnodup.2
  · rw [hregions.pairwise_iff (fun h ↦ h.symm), List.pairwise_cons]
    exact ⟨hfresh.disjoint, h.regions_disjoint⟩
  · intro hclean
    rw [hlargeIndex, hlarge]
    exact h.large_index (hdirty ▸ hclean)

/-! ## Worlds -/

/-- The slots of a span from the watermark on hold zeros. -/
def World.Zeroed (w : World) : Prop :=
  ∀ index span, w.heap.span? index = some span → ∀ address,
    span.base + span.zeroedWatermark * span.elemSize ≤ address → address < span.base + spanBytes →
      w.mem address = 0

/-- What holds of the heap and its memory whenever the heap lock is free. -/
structure World.Sound (w : World) : Prop where
  valid : w.heap.Valid
  quiet : w.heap.Quiet
  zeroed : w.Zeroed

theorem Memory.zero_eq_zero (h : mem address = 0) (start size : ℕ) :
    mem.zero start size address = 0 := by
  unfold Memory.zero
  split
  · rfl
  · exact h

theorem Memory.zero_of_inRegion (h : InRegion (start, size) address) :
    mem.zero start size address = 0 :=
  if_pos h

theorem Memory.zero_ne (h : mem.zero start size address ≠ mem address) :
    InRegion (start, size) address ∧ mem.zero start size address = 0 := by
  unfold Memory.zero at h ⊢
  split at h
  · rename_i hin
    exact ⟨hin, if_pos hin⟩
  · exact (h rfl).elim

/-- The world `w'` has the same blocks as `w` and differs from it in the lists of spans with free
slots and in at most one new span at `fresh`. -/
structure Opened (fresh : ℕ) (w w' : World) : Prop where
  sound : w'.Sound
  blocks : ∀ location, w'.heap.blockAt location = w.heap.blockAt location
  types : w'.heap.types = w.heap.types
  pending : w'.heap.pendingFinalizerRoots = w.heap.pendingFinalizerRoots
  regions : w'.heap.regions.Perm w.heap.regions ∨
    w'.heap.regions.Perm ((fresh, spanBytes) :: w.heap.regions)
  memory : ∀ address, w'.mem address ≠ w.mem address →
    InRegion (fresh, spanBytes) address ∧ w'.mem address = 0
  spans : ∀ index span, w'.heap.span? index = some span →
    span.base = fresh ∨ w.heap.span? index = some span

/-- Changing the lists of open and partial spans, as long as they list spans of the class. -/
theorem World.Sound.relist (h : w.Sound) {openSpan : ℕ → Option ℕ} {partialSpans : ℕ → List ℕ}
    (hopen : ∀ c index, openSpan c = some index → w.heap.HasSpan c index)
    (hstacks : ∀ c, ∀ index ∈ partialSpans c, w.heap.HasSpan c index) :
    World.Sound { w with heap := { w.heap with openSpan, partialSpans } } where
  valid := { h.valid with open_exists := hopen, partial_exists := hstacks }
  quiet := { h.quiet with }
  zeroed := h.zeroed

theorem Opened.refl (h : w.Sound) (fresh : ℕ) : Opened fresh w w where
  sound := h
  blocks _ := rfl
  types := rfl
  pending := rfl
  regions := Or.inl (List.Perm.refl _)
  memory _ hne := (hne rfl).elim
  spans _ _ hspan := Or.inr hspan

theorem World.Sound.closeSpan (h : w.Sound) (sizeClass : ℕ) : (w.closeSpan sizeClass).Sound := by
  apply h.relist
  · intro c index hopen
    by_cases hc : c = sizeClass
    · subst hc
      simp at hopen
    · rw [Function.update_of_ne hc] at hopen
      exact h.valid.open_exists c index hopen
  · exact h.valid.partial_exists

/-- The stack of partial spans is popped until a span with a free slot comes up. -/
theorem HeapState.popPartial_spec (s : HeapState) (stack : List ℕ) :
    (∀ index ∈ (s.popPartial stack).2, index ∈ stack) ∧
      ∀ index, (s.popPartial stack).1 = some index → index ∈ stack ∧
        ∃ span, s.span? index = some span ∧ span.liveCount < span.nelems := by
  induction stack with
  | nil => simp [HeapState.popPartial]
  | cons top rest ih =>
    have hskip : (∀ index ∈ (s.popPartial rest).2, index ∈ top :: rest) ∧
        ∀ index, (s.popPartial rest).1 = some index → index ∈ top :: rest ∧
          ∃ span, s.span? index = some span ∧ span.liveCount < span.nelems := by
      refine ⟨fun index hmem ↦ List.mem_cons_of_mem _ (ih.1 index hmem), fun index hsome ↦ ?_⟩
      obtain ⟨hmem, hspan⟩ := ih.2 index hsome
      exact ⟨List.mem_cons_of_mem _ hmem, hspan⟩
    rw [HeapState.popPartial]
    cases hspan : s.span? top with
    | none => exact hskip
    | some span =>
      dsimp only
      split
      · rename_i hlive
        refine ⟨fun index hmem ↦ List.mem_cons_of_mem _ hmem, fun index hsome ↦ ?_⟩
        obtain rfl : top = index := by simpa using hsome
        exact ⟨List.mem_cons_self, span, hspan, hlive⟩
      · exact hskip

/-- A new span of any class has room for an object. -/
theorem Span.nelems_new_pos (hclass : sizeClass < numSizeClasses) (base : ℕ) :
    0 < (Span.new sizeClass base).nelems := by
  simp only [Span.new]
  apply Nat.div_pos
  · unfold classElemSize spanBytes defaultHeapAlignment
    unfold numSizeClasses smallObjectMax defaultHeapAlignment at hclass
    omega
  · exact classElemSize_pos _

theorem HeapState.Valid.blockAt_newSpan (h : s.Valid) (sizeClass fresh : ℕ)
    (location : ObjectLocation) :
    (s.newSpan sizeClass fresh).1.blockAt location = s.blockAt location := by
  obtain ⟨hunused, hspan?⟩ := h.span?_newSpan sizeClass fresh
  cases location with
  | span index slot =>
    simp only [HeapState.blockAt]
    rw [hspan?]
    by_cases hindex : index = (s.newSpan sizeClass fresh).2
    · simp [hindex, hunused, Span.new]
    · simp [hindex]
  | large index =>
    have hlarge : (s.newSpan sizeClass fresh).1.large = s.large := by
      unfold HeapState.newSpan
      split <;> rfl
    simp [HeapState.blockAt, hlarge]

section

variable (h : w.Sound) (hclass : sizeClass < numSizeClasses) (hfresh : FreshSpan w.heap fresh)
include h hclass hfresh

/-- A span obtained from the system is zero, and everything else is as before. -/
theorem World.Sound.newSpan :
    Opened fresh w
      { heap := (w.heap.newSpan sizeClass fresh).1, mem := w.mem.zero fresh spanBytes } := by
  obtain ⟨hunused, hspan?⟩ := h.valid.span?_newSpan sizeClass fresh
  have hsame : (w.heap.newSpan sizeClass fresh).1.large = w.heap.large ∧
      (w.heap.newSpan sizeClass fresh).1.types = w.heap.types ∧
      (w.heap.newSpan sizeClass fresh).1.spanQueue = w.heap.spanQueue ∧
      (w.heap.newSpan sizeClass fresh).1.largeQueue = w.heap.largeQueue ∧
      (w.heap.newSpan sizeClass fresh).1.pendingFinalizerRoots = w.heap.pendingFinalizerRoots := by
    unfold HeapState.newSpan
    split <;> exact ⟨rfl, rfl, rfl, rfl, rfl⟩
  obtain ⟨hlarge, htypes, hspanQueue, hlargeQueue, hpending⟩ := hsame
  have hspans : ∀ index span, (w.heap.newSpan sizeClass fresh).1.span? index = some span →
      span = Span.new sizeClass fresh ∨ w.heap.span? index = some span := by
    intro index span hspan
    rw [hspan?] at hspan
    split at hspan
    · cases hspan
      exact Or.inl rfl
    · exact Or.inr hspan
  refine
    { sound := ⟨h.valid.newSpan hclass hfresh, ?_, ?_⟩
      blocks := h.valid.blockAt_newSpan sizeClass fresh
      types := htypes
      pending := hpending
      regions := Or.inr (h.valid.regions_newSpan sizeClass fresh)
      memory := fun address hne ↦ Memory.zero_ne hne
      spans := ?_ }
  · refine ⟨?_, hlarge ▸ h.quiet.large, hspanQueue.trans h.quiet.spanQueue,
      hlargeQueue.trans h.quiet.largeQueue⟩
    intro index span hspan
    rcases hspans index span hspan with rfl | hold
    · exact spanQuiet_new sizeClass fresh
    · exact h.quiet.spans index span hold
  · intro index span hspan address hlow hhigh
    rcases hspans index span hspan with rfl | hold
    · exact Memory.zero_of_inRegion ⟨le_trans (Nat.le_add_right _ _) hlow, hhigh⟩
    · exact Memory.zero_eq_zero (h.zeroed index span hold address hlow hhigh) _ _
  · intro index span hspan
    rcases hspans index span hspan with rfl | hold
    · exact Or.inl rfl
    · exact Or.inr hold

/-! ## Small requests -/

/-- A span of the class with a free slot is found or made. -/
theorem World.Sound.takeAllocatableSpan :
    Opened fresh w (w.takeAllocatableSpan sizeClass fresh).1 ∧
      ∃ span, (w.takeAllocatableSpan sizeClass fresh).1.heap.span?
          (w.takeAllocatableSpan sizeClass fresh).2 = some span ∧
        span.sizeClass = sizeClass ∧ span.liveCount < span.nelems := by
  obtain ⟨hrest, hfound⟩ := w.heap.popPartial_spec (w.heap.partialSpans sizeClass)
  unfold World.takeAllocatableSpan
  generalize w.heap.popPartial (w.heap.partialSpans sizeClass) = popped at hrest hfound ⊢
  obtain ⟨found, rest⟩ := popped
  have hpopped : World.Sound { w with heap :=
      { w.heap with partialSpans := Function.update w.heap.partialSpans sizeClass rest } } := by
    apply h.relist h.valid.open_exists
    intro c index hmem
    by_cases hc : c = sizeClass
    · subst hc
      rw [Function.update_self] at hmem
      exact h.valid.partial_exists c index (hrest index hmem)
    · rw [Function.update_of_ne hc] at hmem
      exact h.valid.partial_exists c index hmem
  cases found with
  | some index =>
    obtain ⟨hmem, span, hspan, hlive⟩ := hfound index rfl
    obtain ⟨span', hspan', hc⟩ := h.valid.partial_exists sizeClass index hmem
    rw [hspan] at hspan'
    cases hspan'
    exact ⟨{ Opened.refl h fresh with sound := hpopped }, span, hspan, hc, hlive⟩
  | none =>
    have hnew := hpopped.newSpan hclass ⟨hfresh.pos, hfresh.aligned, hfresh.disjoint⟩
    obtain ⟨_, hspan?⟩ := hpopped.valid.span?_newSpan sizeClass fresh
    refine ⟨⟨hnew.sound, hnew.blocks, hnew.types, hnew.pending, hnew.regions, hnew.memory, hnew.spans⟩,
      Span.new sizeClass fresh, ?_, rfl, Span.nelems_new_pos hclass fresh⟩
    dsimp only
    rw [hspan?, if_pos rfl]

/-- The span tried in a round exists; if no span was open before, it has a free slot. -/
theorem World.Sound.currentSpan :
    Opened fresh w (w.currentSpan sizeClass fresh).1 ∧
      ∃ span, (w.currentSpan sizeClass fresh).1.heap.span? (w.currentSpan sizeClass fresh).2 = some span ∧
        span.sizeClass = sizeClass ∧
        (w.heap.openSpan sizeClass = none → ∃ slot, span.findFreeSlot = some slot) := by
  unfold World.currentSpan
  cases hopen : w.heap.openSpan sizeClass with
  | some index =>
    obtain ⟨span, hspan, hc⟩ := h.valid.open_exists sizeClass index hopen
    exact ⟨Opened.refl h fresh, span, hspan, hc, fun hnone ↦ by cases hnone⟩
  | none =>
    obtain ⟨htaken, span, hspan, hc, hlive⟩ := h.takeAllocatableSpan hclass hfresh
    have hvalid := htaken.sound.valid
    refine ⟨{ htaken with sound := ?_ }, span, hspan, hc, fun _ ↦ ?_⟩
    · apply htaken.sound.relist _ hvalid.partial_exists
      intro c index hindex
      by_cases hc' : c = sizeClass
      · subst hc'
        rw [Function.update_self, Option.some.injEq] at hindex
        exact hindex ▸ ⟨span, hspan, hc⟩
      · rw [Function.update_of_ne hc'] at hindex
        exact hvalid.open_exists c index hindex
    · exact (hvalid.spans _ span hspan).findFreeSlot_isSome hlive

/-- What the slot search of a small request comes to: a slot of a span that is found or made. -/
def SmallSlot (sizeClass typeId fresh : ℕ) (w : World) (result : World × ℕ) : Prop :=
  ∃ w' index span slot, Opened fresh w w' ∧ w'.heap.span? index = some span ∧
    span.sizeClass = sizeClass ∧ span.findFreeSlot = some slot ∧
    result = w'.takeSlot index span slot typeId

/-- The search returns in its second round at the latest. -/
theorem World.Sound.allocSmall (typeId : ℕ) :
    ∃ result, SmallSlot sizeClass typeId fresh w result ∧
      (∀ rounds, World.allocSmall sizeClass typeId fresh (rounds + 2) w = some result) ∧
      ∀ rounds result', World.allocSmall sizeClass typeId fresh rounds w = some result' →
        result' = result := by
  -- A round in which no span is open returns.
  have hclosed : ∀ w : World, w.Sound → FreshSpan w.heap fresh → w.heap.openSpan sizeClass = none →
      ∃ result, SmallSlot sizeClass typeId fresh w result ∧
        ∀ rounds, World.allocSmall sizeClass typeId fresh (rounds + 1) w = some result := by
    intro w hw hfresh hopen
    obtain ⟨hopened, span, hspan, hc, hslot⟩ := hw.currentSpan hclass hfresh
    obtain ⟨slot, hslot⟩ := hslot hopen
    refine ⟨_, ⟨_, _, span, slot, hopened, hspan, hc, hslot, rfl⟩, fun rounds ↦ ?_⟩
    simp only [World.allocSmall, hspan, hslot]
  cases hopen : w.heap.openSpan sizeClass with
  | none =>
    obtain ⟨result, hresult, hreturns⟩ := hclosed w h hfresh hopen
    refine ⟨result, hresult, fun rounds ↦ hreturns (rounds + 1), fun rounds result' hsome ↦ ?_⟩
    cases rounds with
    | zero => cases hsome
    | succ rounds =>
      rw [hreturns] at hsome
      exact (Option.some.inj hsome).symm
  | some index =>
    obtain ⟨span, hspan, hc⟩ := h.valid.open_exists sizeClass index hopen
    have hcurrent : w.currentSpan sizeClass fresh = (w, index) := by
      simp [World.currentSpan, hopen]
    cases hfind : span.findFreeSlot with
    | some slot =>
      refine ⟨_, ⟨w, index, span, slot, Opened.refl h fresh, hspan, hc, hfind, rfl⟩, ?_, ?_⟩
      · intro rounds
        simp [World.allocSmall, hcurrent, hspan, hfind]
      · intro rounds result' hsome
        cases rounds with
        | zero => cases hsome
        | succ rounds =>
          simp only [World.allocSmall, hcurrent, hspan, hfind, Option.some.injEq] at hsome
          exact hsome.symm
    | none =>
      -- The open span is full; the next round starts without an open span.
      obtain ⟨result, hresult, hreturns⟩ := hclosed (w.closeSpan sizeClass) (h.closeSpan sizeClass)
        ⟨hfresh.pos, hfresh.aligned, hfresh.disjoint⟩ (by simp [World.closeSpan])
      have hround : ∀ rounds, World.allocSmall sizeClass typeId fresh (rounds + 1) w =
          World.allocSmall sizeClass typeId fresh rounds (w.closeSpan sizeClass) := by
        intro rounds
        simp [World.allocSmall, hcurrent, hspan, hfind]
      refine ⟨result, ?_, fun rounds ↦ (hround _).trans (hreturns rounds), ?_⟩
      · obtain ⟨w', index', span', slot', hopened, hrest⟩ := hresult
        exact ⟨w', index', span', slot', ⟨hopened.sound, hopened.blocks, hopened.types,
          hopened.pending, hopened.regions, hopened.memory, hopened.spans⟩, hrest⟩
      · intro rounds result' hsome
        match rounds with
        | 0 => cases hsome
        | 1 =>
          rw [hround] at hsome
          cases hsome
        | rounds + 2 =>
          rw [hround, hreturns] at hsome
          exact (Option.some.inj hsome).symm

end

/-- What an allocation does: there is a new block at an unused location. -/
structure Allocates (size typeId fresh : ℕ) (w w' : World) (location : ObjectLocation) (block : Block) :
    Prop where
  sound : w'.Sound
  unused : w.heap.blockAt location = none
  blocks : ∀ other, w'.heap.blockAt other =
    if other = location then some block else w.heap.blockAt other
  size_le : size ≤ block.size
  typeId_eq : block.typeId = typeId
  young : block.young = true
  not_finalized : block.finalized = false
  aligned : defaultHeapAlignment ∣ block.start
  zero : ∀ address, block.Contains address → w'.mem address = 0
  types : w'.heap.types = w.heap.types
  pending : w'.heap.pendingFinalizerRoots = w.heap.pendingFinalizerRoots
  regions : w'.heap.regions.Perm w.heap.regions ∨
    w'.heap.regions.Perm ((fresh, (requestLayout size).1) :: w.heap.regions)
  memory : ∀ address, w'.mem address ≠ w.mem address →
    block.Contains address ∨ InRegion (fresh, (requestLayout size).1) address
  spans : ∀ index span, w'.heap.span? index = some span →
    size ≤ smallObjectMax ∧ span.base = fresh ∨
      ∃ old, w.heap.span? index = some old ∧ old.base = span.base ∧ old.elemSize = span.elemSize ∧
        old.zeroedWatermark ≤ span.zeroedWatermark

section

variable (h : SpanValid span) (hslot : slot < span.nelems)
include h hslot

theorem SpanValid.get_allocSlot (typeId j : ℕ) :
    (span.allocSlot slot typeId).allocBits.get j = (decide (j = slot) || span.allocBits.get j) := by
  apply Bitmap.get_set
  rw [h.alloc_length]
  exact slot_div_lt_bitmapWords hslot

theorem SpanValid.block_allocSlot_self (htype : typeId < maxTypeId) :
    (span.allocSlot slot typeId).block slot =
      { start := span.slotAddress slot, size := span.elemSize, typeId, young := true,
        finalized := false } := by
  have hword := slot_div_lt_bitmapWords hslot
  have hmod : typeId % 65536 = typeId := Nat.mod_eq_of_lt htype
  simp [Span.block, Span.allocSlot, Span.slotAddress, Bitmap.get_set (h.young_length ▸ hword),
    Bitmap.get_clear (h.finalized_length ▸ hword), List.getD_eq_getElem?_getD, h.typeIds_length, hslot,
    hmod]

theorem SpanValid.block_allocSlot_of_ne {j : ℕ}
    (hne : j ≠ slot) (typeId : ℕ) :
    (span.allocSlot slot typeId).block j = span.block j := by
  have hword := slot_div_lt_bitmapWords hslot
  simp [Span.block, Span.allocSlot, Span.slotAddress, Bitmap.get_set (h.young_length ▸ hword),
    Bitmap.get_clear (h.finalized_length ▸ hword), List.getD_eq_getElem?_getD, hne, Ne.symm hne]

end

theorem sizeClassOf_lt (h : size ≤ smallObjectMax) : sizeClassOf size < numSizeClasses := by
  unfold sizeClassOf numSizeClasses smallObjectMax defaultHeapAlignment at *
  omega

theorem le_classElemSize (size : ℕ) : size ≤ classElemSize (sizeClassOf size) := by
  unfold classElemSize sizeClassOf defaultHeapAlignment
  omega

/-- Handing out the slot that the search found. -/
theorem Opened.takeSlot {w' : World} (h : Opened fresh w w') (hsize : size ≤ smallObjectMax)
    (htype : typeId < maxTypeId) (hspan : w'.heap.span? index = some span)
    (hclass : span.sizeClass = sizeClassOf size) (hfind : span.findFreeSlot = some slot) :
    ∃ block, block.start = (w'.takeSlot index span slot typeId).2 ∧
      Allocates size typeId fresh w (w'.takeSlot index span slot typeId).1 (.span index slot) block := by
  have hvalid := h.sound.valid.spans index span hspan
  obtain ⟨hslot, hfree, _⟩ := hvalid.findFreeSlot_some hfind
  have hblock := hvalid.block_allocSlot_self hslot htype
  have hlayout : (requestLayout size).1 = spanBytes := by simp [requestLayout, hsize]
  have hspan? := HeapState.span?_setSpan (HeapState.lt_of_span? hspan) (span.allocSlot slot typeId)
  have hzero : ∀ address, InRegion (span.slotAddress slot, span.elemSize) address →
      (w'.takeSlot index span slot typeId).1.mem address = 0 := by
    intro address hin
    simp only [World.takeSlot]
    split
    · exact Memory.zero_of_inRegion hin
    · rename_i hwatermark
      apply h.sound.zeroed index span hspan
      · have := Nat.mul_le_mul_right span.elemSize (not_lt.mp hwatermark)
        simp only [InRegion, Span.slotAddress] at hin
        omega
      · have := hvalid.slot_end_le hslot
        simp only [InRegion, Span.slotAddress] at hin
        omega
  refine ⟨(span.allocSlot slot typeId).block slot, by rw [hblock]; rfl, ?_⟩
  refine
    { sound := ⟨?_, ?_, ?_⟩
      unused := ?_
      blocks := ?_
      size_le := ?_
      typeId_eq := by rw [hblock]
      young := by rw [hblock]
      not_finalized := by rw [hblock]
      aligned := ?_
      zero := ?_
      types := h.types
      pending := h.pending
      regions := ?_
      memory := ?_
      spans := ?_ }
  · exact h.sound.valid.setSpan hspan (hvalid.allocSlot hfind typeId) rfl rfl
  · refine { h.sound.quiet with spans := ?_ }
    intro j other hother
    rw [World.takeSlot, hspan?] at hother
    split at hother
    · cases hother
      exact (h.sound.quiet.spans index span hspan).allocSlot slot typeId
    · exact h.sound.quiet.spans j other hother
  · intro j other hother address hlow hhigh
    rw [World.takeSlot, hspan?] at hother
    have hold : w'.mem address = 0 := by
      split at hother
      · cases hother
        apply h.sound.zeroed index span hspan address (le_trans _ hlow) hhigh
        simp only [Span.allocSlot]
        gcongr
        split <;> omega
      · exact h.sound.zeroed j other hother address hlow hhigh
    simp only [World.takeSlot]
    split
    · exact Memory.zero_eq_zero hold _ _
    · exact hold
  · rw [← h.blocks]
    simp [HeapState.blockAt, hspan, hfree]
  · intro location
    rw [← h.blocks]
    cases location with
    | large i => simp [HeapState.blockAt, World.takeSlot, HeapState.setSpan]
    | span i j =>
      simp only [HeapState.blockAt, World.takeSlot, hspan?, ObjectLocation.span.injEq]
      by_cases hi : i = index
      · subst hi
        simp only [if_true, hspan, hvalid.get_allocSlot hslot, true_and]
        by_cases hj : j = slot
        · simp [hj, Span.allocSlot, hslot]
        · rw [hvalid.block_allocSlot_of_ne hslot hj]
          simp only [hj, decide_false, Bool.false_or, if_false]
          rfl
      · simp [hi]
  · rw [hblock, hvalid.elemSize_eq, hclass]
    exact le_classElemSize size
  · rw [hblock, hvalid.elemSize_eq]
    have hbase : defaultHeapAlignment ∣ span.base :=
      Dvd.dvd.trans (by unfold defaultHeapAlignment spanBytes; norm_num) hvalid.base_aligned
    simp only [Span.slotAddress, hvalid.elemSize_eq, classElemSize]
    exact (Nat.dvd_add_right hbase).mpr (Dvd.dvd.mul_left (Nat.dvd_mul_left _ _) _)
  · rw [hblock]
    exact hzero
  · rw [hlayout]
    have hbase : (span.allocSlot slot typeId).base = span.base := rfl
    have hperm := HeapState.regions_setSpan hspan hbase
    rcases h.regions with hsame | hnew
    · exact Or.inl (hperm.trans hsame)
    · exact Or.inr (hperm.trans hnew)
  · intro address hne
    rw [hlayout, hblock]
    by_cases hin : InRegion (span.slotAddress slot, span.elemSize) address
    · exact Or.inl hin
    · right
      have hsame : (w'.takeSlot index span slot typeId).1.mem address = w'.mem address := by
        simp only [World.takeSlot]
        split
        · exact if_neg hin
        · rfl
      exact (h.memory address (hsame ▸ hne)).1
  · intro j other hother
    rw [World.takeSlot, hspan?] at hother
    split at hother
    · rename_i hj
      subst hj
      cases hother
      rcases h.spans j span hspan with hbase | hold
      · exact Or.inl ⟨hsize, hbase⟩
      · refine Or.inr ⟨span, hold, rfl, rfl, ?_⟩
        simp only [Span.allocSlot]
        split <;> omega
    · rcases h.spans j other hother with hbase | hold
      · exact Or.inl ⟨hsize, hbase⟩
      · exact Or.inr ⟨other, hold, rfl, rfl, le_refl _⟩

/-! ## All requests -/

/-- The memory at `fresh` is what the system allocator may return for a request. -/
structure FreshFor (s : HeapState) (size fresh : ℕ) : Prop where
  pos : 0 < fresh
  aligned : (requestLayout size).2 ∣ fresh
  disjoint : ∀ region ∈ s.regions, DisjointRegions (fresh, (requestLayout size).1) region

theorem World.Sound.allocLarge (h : w.Sound) (hsize : smallObjectMax < size)
    (htype : typeId < maxTypeId) (hfresh : FreshFor w.heap size fresh) :
    ∃ block, block.start = (World.allocLarge size typeId fresh w).2 ∧
      Allocates size typeId fresh w (World.allocLarge size typeId fresh w).1
        (.large w.heap.large.length) block := by
  have hlayout : requestLayout size = (max size 1, defaultHeapAlignment) := by
    simp [requestLayout, not_le.mpr hsize]
  have hdisjoint := hfresh.disjoint
  have haligned := hfresh.aligned
  rw [hlayout] at hdisjoint haligned
  have hmod : typeId % 65536 = typeId := Nat.mod_eq_of_lt htype
  have hregions : (World.allocLarge size typeId fresh w).1.heap.regions.Perm
      ((fresh, max size 1) :: w.heap.regions) := by
    simp only [World.allocLarge, HeapState.regions, List.map_append, List.map_cons, List.map_nil,
      ← List.append_assoc]
    exact List.perm_append_singleton _ _
  have hmem : ∀ object ∈ (World.allocLarge size typeId fresh w).1.heap.large,
      object ∈ w.heap.large ∨ object.start = fresh ∧ object.size = max size 1 ∧ object.color = .white := by
    intro object hobject
    rcases List.mem_append.mp hobject with hold | hnew
    · exact Or.inl hold
    · obtain rfl := List.mem_singleton.mp hnew
      exact Or.inr ⟨rfl, rfl, rfl⟩
  refine ⟨{ start := fresh, size := max size 1, typeId, young := true, finalized := false }, rfl, ?_⟩
  refine
    { sound := ⟨?_, ?_, ?_⟩
      unused := by simp [HeapState.blockAt]
      blocks := ?_
      size_le := le_max_left _ _
      typeId_eq := rfl
      young := rfl
      not_finalized := rfl
      aligned := haligned
      zero := fun address hin ↦ Memory.zero_of_inRegion hin
      types := rfl
      pending := rfl
      regions := by rw [hlayout]; exact Or.inr hregions
      memory := fun address hne ↦ Or.inl (Memory.zero_ne hne).1
      spans := fun index span hspan ↦ Or.inr ⟨span, hspan, rfl, rfl, le_refl _⟩ }
  · refine
      { h.valid with
        large_aligned := ?_
        large_pos := ?_
        regions_disjoint := ?_
        large_index := fun hclean ↦ by cases hclean }
    · intro object hobject
      rcases hmem object hobject with hold | ⟨hstart, _, _⟩
      · exact h.valid.large_aligned object hold
      · exact hstart ▸ haligned
    · intro object hobject
      rcases hmem object hobject with hold | ⟨hstart, hsize', _⟩
      · exact h.valid.large_pos object hold
      · have := hfresh.pos
        omega
    · rw [hregions.pairwise_iff (fun h ↦ h.symm), List.pairwise_cons]
      exact ⟨hdisjoint, h.valid.regions_disjoint⟩
  · refine { h.quiet with large := ?_ }
    intro object hobject
    rcases hmem object hobject with hold | ⟨_, _, hcolor⟩
    · exact h.quiet.large object hold
    · exact hcolor
  · intro index span hspan address hlow hhigh
    exact Memory.zero_eq_zero (h.zeroed index span hspan address hlow hhigh) _ _
  · intro location
    cases location with
    | span i j => rfl
    | large i =>
      simp only [HeapState.blockAt, World.allocLarge, ObjectLocation.large.injEq]
      by_cases hi : i = w.heap.large.length
      · simp [hi, LargeObject.block, hmod]
      · rw [if_neg hi]
        rcases Nat.lt_or_gt_of_ne hi with hlt | hgt
        · rw [List.getElem?_append_left hlt]
        · rw [List.getElem?_append_right hgt.le, List.getElem?_eq_none (by simp; omega),
            List.getElem?_eq_none hgt.le]

theorem HeapState.Valid.typeId_lt (h : s.Valid) (hinfo : s.typeInfo typeId = some info) :
    typeId < maxTypeId := by
  have hsome : s.types[typeId]? = some (some info) := by
    simpa [HeapState.typeInfo, Option.join_eq_some_iff] using hinfo
  obtain ⟨hlt, _⟩ := List.getElem?_eq_some_iff.mp hsome
  exact lt_of_lt_of_le hlt h.types_length

/-- An allocation of a registered type returns, and its result does not depend on the bound. -/
theorem World.Sound.alloc (h : w.Sound) (hinfo : w.heap.typeInfo typeId = some info)
    (hfresh : FreshFor w.heap size fresh) :
    ∃ w' location block, Allocates size typeId fresh w w' location block ∧
      (∀ rounds, w.alloc (rounds + 2) size typeId fresh = some (w', block.start)) ∧
      ∀ rounds result, w.alloc rounds size typeId fresh = some result → result = (w', block.start) := by
  have htype := h.valid.typeId_lt hinfo
  by_cases hsize : size ≤ smallObjectMax
  · have hlayout : requestLayout size = (spanBytes, spanBytes) := by simp [requestLayout, hsize]
    have hfreshSpan : FreshSpan w.heap fresh :=
      ⟨hfresh.pos, by simpa [hlayout] using hfresh.aligned, by simpa [hlayout] using hfresh.disjoint⟩
    obtain ⟨result, ⟨w', index, span, slot, hopened, hspan, hclass, hfind, rfl⟩, hreturns, hunique⟩ :=
      h.allocSmall (sizeClassOf_lt hsize) hfreshSpan typeId
    obtain ⟨block, hstart, hallocates⟩ := hopened.takeSlot hsize htype hspan hclass hfind
    refine ⟨_, _, block, hallocates, fun rounds ↦ ?_, fun rounds result hsome ↦ ?_⟩
    · rw [hstart]
      simpa [World.alloc, hinfo, hsize] using hreturns rounds
    · rw [hstart]
      apply hunique rounds
      simpa [World.alloc, hinfo, hsize] using hsome
  · obtain ⟨block, hstart, hallocates⟩ := h.allocLarge (not_le.mp hsize) htype hfresh
    refine ⟨_, _, block, hallocates, fun rounds ↦ ?_, fun rounds result hsome ↦ ?_⟩
    · rw [hstart]
      simp [World.alloc, hinfo, hsize]
    · rw [hstart]
      simpa [World.alloc, hinfo, hsize, eq_comm] using hsome

end Pon.Gc
