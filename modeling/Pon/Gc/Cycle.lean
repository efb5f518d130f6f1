import Pon.Gc.Allocation
import Pon.Gc.Marking
import Pon.Gc.Sweeping

/-!
# A collection under the lock

The mark phase marks what the roots reach, the second wave what the blocks with a finalizer to run
reach, and the sweep frees the rest except for young blocks. `Collected` describes the result in
terms of blocks and reachability in the state before.
-/

namespace Pon.Gc

open Pon.Graph

/-! ## Mark phase -/

variable {s : HeapState}

theorem HeapState.Quiet.marked_eq_false (h : s.Quiet) (location : ObjectLocation) :
    s.marked location = false := by
  cases location with
  | span index slot =>
    cases hspan : s.span? index with
    | none => simp [HeapState.marked, hspan]
    | some span => simp [HeapState.marked, hspan, (h.spans index span hspan).unmarked]
  | large index =>
    cases hobject : s.large[index]? with
    | none => simp [HeapState.marked, hobject]
    | some object =>
      simp [HeapState.marked, hobject, h.large object (List.mem_of_getElem? hobject),
        MarkColor.isReached]

theorem HeapState.Quiet.scannedAt_eq_false (h : s.Quiet) (location : ObjectLocation) :
    s.scannedAt location = false := by
  cases location with
  | span index slot =>
    cases hspan : s.span? index with
    | none => simp [HeapState.scannedAt, hspan]
    | some span => simp [HeapState.scannedAt, hspan, (h.spans index span hspan).unscanned]
  | large index =>
    cases hobject : s.large[index]? with
    | none => simp [HeapState.scannedAt, hobject]
    | some object =>
      simp [HeapState.scannedAt, hobject, h.large object (List.mem_of_getElem? hobject)]

theorem Marking.start (hvalid : s.Valid) (hquiet : s.Quiet) (mem : Memory)
    (roots : List ℕ) : Marking s mem roots roots s.prepareLargeIndex := by
  have hsame := SameBlocks.prepareLargeIndex s
  have hspan? : ∀ index, s.prepareLargeIndex.span? index = s.span? index := by
    unfold HeapState.prepareLargeIndex
    split <;> exact fun _ ↦ rfl
  have hlarge : s.prepareLargeIndex.large = s.large := by
    unfold HeapState.prepareLargeIndex
    split <;> rfl
  have hmarked : ∀ location, s.prepareLargeIndex.marked location = false := by
    intro location
    rw [← hquiet.marked_eq_false location]
    cases location <;> simp only [HeapState.marked, hspan?, hlarge]
  have hscanned : ∀ location, s.prepareLargeIndex.scannedAt location = false := by
    intro location
    rw [← hquiet.scannedAt_eq_false location]
    cases location <;> simp only [HeapState.scannedAt, hspan?, hlarge]
  refine
    { valid₀ := hvalid
      valid := hvalid.prepareLargeIndex
      clean := s.prepareLargeIndex_clean
      same := hsame
      active_queued := ?_
      span_queued := ?_
      large_queued := ?_
      tracing := ?_ }
  · intro index span hspan slot hmark
    rw [(hquiet.spans index span (hspan? index ▸ hspan)).unmarked] at hmark
    cases hmark
  · intro index span hspan hon
    rw [(hquiet.spans index span (hspan? index ▸ hspan)).notQueued] at hon
    cases hon
  · intro index object hobject hgray
    rw [hlarge] at hobject
    rw [hquiet.large object (List.mem_of_getElem? hobject)] at hgray
    cases hgray
  · simp only [hmarked, hscanned, Bool.false_eq_true]
    exact Tracing.start roots

/-- The mark phase ends, and has marked what the roots and the pending blocks reach. -/
theorem HeapState.Valid.markPhase (hvalid : s.Valid) (hquiet : s.Quiet) (mem : Memory)
    (roots : List ℕ) :
    Marking s mem (roots ++ s.pendingFinalizerRoots) [] (s.markPhase mem roots) ∧
      (s.markPhase mem roots).spanQueue = [] ∧ (s.markPhase mem roots).largeQueue = [] := by
  have hstart := Marking.start hvalid hquiet mem (roots ++ s.pendingFinalizerRoots)
  obtain ⟨hroots, _⟩ := hstart.markPointers
  have hrest : Marking s mem (roots ++ s.pendingFinalizerRoots) (s.pendingFinalizerRoots ++ [])
      (s.prepareLargeIndex.markPointers roots) := by
    rwa [List.append_nil]
  obtain ⟨hpending, _⟩ := hrest.markPointers
  exact hpending.drainMarks

/-! ## Finalizers to run -/

theorem pairwise_zipIdx {α : Type*} (l : List α) : l.zipIdx.Pairwise fun a b ↦ a.2 ≠ b.2 := by
  have hnodup : (l.zipIdx.map Prod.snd).Nodup := by
    rw [List.zipIdx_map_snd]
    exact List.nodup_range'
  exact List.pairwise_map.mp hnodup

variable {s : HeapState}

variable {entry : PendingFinalizer} {index : ℕ} {block : Block}

/-- The entries are the blocks that are neither marked nor young, have a finalizer and have not been
finalized. -/
theorem HeapState.Valid.mem_collectPendingFinalizers (h : s.Valid) :
    entry ∈ s.collectPendingFinalizers ↔ ∃ block, s.blockAt entry.location = some block ∧
      entry.start = block.start ∧ s.marked entry.location = false ∧ block.young = false ∧
      block.finalized = false ∧ s.finalizerOf block.typeId = some entry.finalize := by
  unfold HeapState.collectPendingFinalizers
  rw [List.mem_append, List.mem_flatMap, List.mem_filterMap]
  constructor
  · rintro (⟨⟨span, index⟩, hmem, hentry⟩ | ⟨⟨object, index⟩, hmem, hentry⟩)
    · have hget := List.mem_zipIdx_iff_getElem?.mp hmem
      cases span with
      | none => simp at hentry
      | some span =>
        have hspan := HeapState.span?_eq_some.mpr hget
        simp only [Option.map_some, Option.getD_some, HeapState.spanPending, List.mem_filterMap] at hentry
        obtain ⟨slot, hslot, hsome⟩ := hentry
        obtain ⟨finalize, hfinalize, rfl⟩ := Option.map_eq_some_iff.mp hsome
        have hvalid := h.spans index span hspan
        obtain ⟨halloc, hmark, hyoung, hfinalized⟩ := hvalid.mem_deadBits.mp hslot
        refine ⟨span.block slot, HeapState.blockAt_span_eq_some.mpr
          ⟨span, hspan, hvalid.alloc_lt slot halloc, halloc, rfl⟩, rfl, ?_, hyoung, hfinalized, hfinalize⟩
        simp [HeapState.marked, hspan, hmark]
    · have hobject := List.mem_zipIdx_iff_getElem?.mp hmem
      simp only [HeapState.largePending] at hentry
      split at hentry
      · cases hentry
      · rename_i hdead
        simp only [Bool.or_eq_true, not_or, Bool.not_eq_true] at hdead
        obtain ⟨finalize, hfinalize, rfl⟩ := Option.map_eq_some_iff.mp hentry
        refine ⟨object.block, HeapState.blockAt_large_eq_some.mpr ⟨object, hobject, rfl⟩, rfl, ?_,
          hdead.1.2, hdead.2, hfinalize⟩
        simp [HeapState.marked, hobject, hdead.1.1]
  · rintro ⟨block, hblock, hstart, hmark, hyoung, hfinalized, hfinalize⟩
    obtain ⟨start, finalize, location⟩ := entry
    cases location with
    | span index slot =>
      left
      obtain ⟨span, hspan, hslot, halloc, rfl⟩ := HeapState.blockAt_span_eq_some.mp hblock
      refine ⟨(some span, index), List.mem_zipIdx_iff_getElem?.mpr (HeapState.span?_eq_some.mp hspan), ?_⟩
      simp only [Option.map_some, Option.getD_some, HeapState.spanPending, List.mem_filterMap]
      refine ⟨slot, (h.spans index span hspan).mem_deadBits.mpr ⟨halloc, ?_, hyoung, hfinalized⟩, ?_⟩
      · simpa [HeapState.marked, hspan] using hmark
      · have hsome : s.finalizerOf (span.typeIds.getD slot 0) = some finalize := hfinalize
        rw [hsome, Option.map_some]
        exact congrArg some (by rw [show start = span.slotAddress slot from hstart])
    | large index =>
      right
      obtain ⟨object, hobject, rfl⟩ := HeapState.blockAt_large_eq_some.mp hblock
      refine ⟨(object, index), List.mem_zipIdx_iff_getElem?.mpr hobject, ?_⟩
      have hreached : object.color.isReached = false := by
        simpa [HeapState.marked, hobject] using hmark
      have hyoung' : object.young = false := hyoung
      have hfinalized' : object.finalized = false := hfinalized
      have hsome : s.finalizerOf object.typeId = some finalize := hfinalize
      simp only [HeapState.largePending, hreached, hyoung', hfinalized', Bool.or_self,
        Bool.false_eq_true, if_false, hsome, Option.map_some]
      exact congrArg some (by rw [show start = object.start from hstart])

theorem HeapState.location_of_mem_spanPending {span : Span} (h : entry ∈ s.spanPending index span) :
    ∃ slot ∈ span.deadBits.indices, entry.location = .span index slot := by
  obtain ⟨slot, hslot, hsome⟩ := List.mem_filterMap.mp h
  obtain ⟨finalize, _, rfl⟩ := Option.map_eq_some_iff.mp hsome
  exact ⟨slot, hslot, rfl⟩

theorem HeapState.location_of_largePending {object : LargeObject}
    (h : s.largePending index object = some entry) : entry.location = .large index := by
  unfold HeapState.largePending at h
  split at h
  · cases h
  · obtain ⟨finalize, _, rfl⟩ := Option.map_eq_some_iff.mp h
    rfl

theorem HeapState.nodup_spanPending (index : ℕ) (span : Span) : (s.spanPending index span).Nodup := by
  apply List.Nodup.filterMap _ (Bitmap.nodup_indices _)
  intro slot slot' entry hentry hentry'
  obtain ⟨_, _, rfl⟩ := Option.map_eq_some_iff.mp hentry
  obtain ⟨_, _, heq⟩ := Option.map_eq_some_iff.mp hentry'
  have hlocation := congrArg PendingFinalizer.location heq
  simpa [eq_comm] using hlocation

theorem HeapState.nodup_pending (s : HeapState) : s.collectPendingFinalizers.Nodup := by
  unfold HeapState.collectPendingFinalizers
  rw [List.nodup_append, List.nodup_flatMap]
  refine ⟨⟨?_, ?_⟩, ?_, ?_⟩
  · rintro ⟨span, index⟩ _
    cases span with
    | none => exact List.nodup_nil
    | some span => exact HeapState.nodup_spanPending index span
  · apply (pairwise_zipIdx s.spans).imp
    rintro ⟨span, index⟩ ⟨span', index'⟩ hne entry hentry hentry'
    cases span with
    | none => simp at hentry
    | some span =>
      cases span' with
      | none => simp at hentry'
      | some span' =>
        obtain ⟨slot, _, hlocation⟩ := HeapState.location_of_mem_spanPending hentry
        obtain ⟨slot', _, hlocation'⟩ := HeapState.location_of_mem_spanPending hentry'
        rw [hlocation] at hlocation'
        cases hlocation'
        exact hne rfl
  · rw [List.Nodup, List.pairwise_filterMap]
    apply (pairwise_zipIdx s.large).imp
    rintro ⟨object, index⟩ ⟨object', index'⟩ hne entry hentry entry' hentry' rfl
    have hlocation := HeapState.location_of_largePending hentry
    rw [HeapState.location_of_largePending hentry'] at hlocation
    cases hlocation
    exact hne rfl
  · intro entry hentry entry' hentry' heq
    subst heq
    obtain ⟨⟨span, index⟩, _, hmem⟩ := List.mem_flatMap.mp hentry
    obtain ⟨⟨object, index'⟩, _, hsome⟩ := List.mem_filterMap.mp hentry'
    have hlocation := HeapState.location_of_largePending hsome
    cases span with
    | none => simp at hmem
    | some span =>
      obtain ⟨slot, _, hlocation'⟩ := HeapState.location_of_mem_spanPending hmem
      rw [hlocation] at hlocation'
      cases hlocation'

/-- An entry is known by the start of its block. -/
theorem HeapState.Valid.pending_start_inj (h : s.Valid) {entry' : PendingFinalizer}
    (hentry : entry ∈ s.collectPendingFinalizers) (hentry' : entry' ∈ s.collectPendingFinalizers)
    (hstart : entry.start = entry'.start) : entry = entry' := by
  obtain ⟨block, hblock, hs, _, _, _, hf⟩ := h.mem_collectPendingFinalizers.mp hentry
  obtain ⟨block', hblock', hs', _, _, _, hf'⟩ := h.mem_collectPendingFinalizers.mp hentry'
  have hsame : block.start = block'.start := hs.symm.trans (hstart.trans hs')
  have hlocation := h.location_unique hblock hblock' (h.block_contains_start hblock)
    (hsame ▸ h.block_contains_start hblock')
  rw [hlocation, hblock'] at hblock
  cases hblock
  rw [hf] at hf'
  obtain ⟨start, finalize, location⟩ := entry
  obtain ⟨start', finalize', location'⟩ := entry'
  simp_all

/-- No block is listed twice. -/
theorem HeapState.Valid.nodup_pending_start (h : s.Valid) :
    (s.collectPendingFinalizers.map PendingFinalizer.start).Nodup :=
  s.nodup_pending.map_on fun _ hentry _ hentry' hstart ↦ h.pending_start_inj hentry hentry' hstart

/-! ## Second wave -/

/-- The block with its finalized flag set if `flag` is. -/
def Block.finalizeIf (block : Block) (flag : Bool) : Block :=
  { block with finalized := block.finalized || flag }

@[simp]
theorem Block.finalizeIf_false (block : Block) : block.finalizeIf false = block := by
  simp [Block.finalizeIf]

@[simp]
theorem Block.finalizeIf_finalizeIf (block : Block) (flag flag' : Bool) :
    (block.finalizeIf flag).finalizeIf flag' = block.finalizeIf (flag || flag') := by
  simp [Block.finalizeIf, Bool.or_assoc]

/-- The state `s'` is `s` with the blocks at `locations` finalized. -/
structure FinalizedAt (s : HeapState) (locations : List ObjectLocation) (s' : HeapState) : Prop where
  valid : s'.Valid
  types : s'.types = s.types
  pending : s'.pendingFinalizerRoots = s.pendingFinalizerRoots
  spanQueue : s'.spanQueue = s.spanQueue
  largeQueue : s'.largeQueue = s.largeQueue
  blocks : ∀ location, s'.blockAt location = (s.blockAt location).map fun block ↦
    block.finalizeIf (decide (location ∈ locations))
  marked : ∀ location, s'.marked location = s.marked location
  kept : SpansKept s s'
  regions : s'.regions.Perm s.regions

theorem FinalizedAt.nil (h : s.Valid) : FinalizedAt s [] s where
  valid := h
  types := rfl
  pending := rfl
  spanQueue := rfl
  largeQueue := rfl
  blocks location := by simp
  marked _ := rfl
  kept _ span hspan := ⟨span, hspan, rfl, rfl, rfl⟩
  regions := List.Perm.refl _

variable {s' : HeapState} {locations : List ObjectLocation} {location : ObjectLocation}
  {pending : List PendingFinalizer}

theorem FinalizedAt.trans {s'' : HeapState} {locations' : List ObjectLocation}
    (h : FinalizedAt s locations s') (h' : FinalizedAt s' locations' s'') :
    FinalizedAt s (locations ++ locations') s'' where
  valid := h'.valid
  types := h'.types.trans h.types
  pending := h'.pending.trans h.pending
  spanQueue := h'.spanQueue.trans h.spanQueue
  largeQueue := h'.largeQueue.trans h.largeQueue
  blocks location := by
    rw [h'.blocks, h.blocks, Option.map_map]
    congr 1
    funext block
    simp
  marked location := (h'.marked location).trans (h.marked location)
  kept := h.kept.trans h'.kept
  regions := h'.regions.trans h.regions

theorem HeapState.Valid.setFinalized_span (h : s.Valid) {slot : ℕ}
    (hblock : s.blockAt (.span index slot) = some block) :
    FinalizedAt s [.span index slot] (s.setFinalized (.span index slot)) := by
  obtain ⟨span, hspan, hslot, halloc, rfl⟩ := HeapState.blockAt_span_eq_some.mp hblock
  have hvalid := h.spans index span hspan
  have hset := HeapState.span?_setSpan (HeapState.lt_of_span? hspan)
    { span with finalizedBits := span.finalizedBits.set slot }
  have hword : slot / 64 < span.finalizedBits.length := by
    rw [hvalid.finalized_length]
    exact slot_div_lt_bitmapWords hslot
  have hbase : ({ span with finalizedBits := span.finalizedBits.set slot } : Span).base = span.base := rfl
  simp only [HeapState.setFinalized, hspan]
  refine
    { valid := h.setSpan hspan (hvalid.finalize slot) rfl rfl
      types := rfl
      pending := rfl
      spanQueue := rfl
      largeQueue := rfl
      blocks := ?_
      marked := ?_
      kept := ?_
      regions := HeapState.regions_setSpan hspan hbase }
  · intro location
    cases location with
    | large i =>
      change s.blockAt (.large i) = _
      simp
    | span i j =>
      simp only [HeapState.blockAt, hset]
      by_cases hi : i = index
      · subst hi
        simp only [if_true, hspan]
        by_cases hfree : (decide (j < span.nelems) && span.allocBits.get j) = true
        · simp only [hfree, if_true, Option.map_some]
          simp [Span.block, Span.slotAddress, Bitmap.get_set hword, Bool.or_comm, Block.finalizeIf]
        · simp only [hfree, if_false, Option.map_none, Bool.false_eq_true]
      · simp [hi]
  · intro location
    cases location with
    | large i => rfl
    | span i j =>
      simp only [HeapState.marked, hset]
      by_cases hi : i = index
      · simp [hi, hspan]
      · simp [hi]
  · intro i span' hspan'
    rw [hset] at hspan'
    split at hspan'
    · rename_i hi
      cases hspan'
      exact ⟨span, hi ▸ hspan, rfl, rfl, rfl⟩
    · exact ⟨span', hspan', rfl, rfl, rfl⟩

theorem HeapState.Valid.setFinalized_large (h : s.Valid)
    (hblock : s.blockAt (.large index) = some block) :
    FinalizedAt s [.large index] (s.setFinalized (.large index)) := by
  obtain ⟨object, hobject, rfl⟩ := HeapState.blockAt_large_eq_some.mp hblock
  have hset : ∀ j, (s.large.set index { object with finalized := true })[j]? = _ :=
    HeapState.getElem?_setLarge hobject
  have hstart : ({ object with finalized := true } : LargeObject).start = object.start := rfl
  simp only [HeapState.setFinalized, hobject]
  refine
    { valid := h.setLarge hobject _ hstart rfl
      types := rfl
      pending := rfl
      spanQueue := rfl
      largeQueue := rfl
      blocks := ?_
      marked := ?_
      kept := fun _ span hspan ↦ ⟨span, hspan, rfl, rfl, rfl⟩
      regions := ?_ }
  · intro location
    cases location with
    | span i j =>
      change s.blockAt (.span i j) = _
      simp
    | large i =>
      simp only [HeapState.blockAt, hset, ObjectLocation.large.injEq, List.mem_singleton]
      by_cases hi : i = index
      · simp [hi, hobject, LargeObject.block, Block.finalizeIf]
      · simp [hi, Function.comp_def]
  · intro location
    cases location with
    | span i j => rfl
    | large i =>
      simp only [HeapState.marked, hset]
      by_cases hi : i = index
      · simp [hi, hobject]
      · simp [hi]
  · rw [HeapState.regions_setLarge hobject hstart rfl]

theorem HeapState.Valid.setFinalized (h : s.Valid) (hblock : s.blockAt location = some block) :
    FinalizedAt s [location] (s.setFinalized location) := by
  cases location with
  | span index slot => exact h.setFinalized_span hblock
  | large index => exact h.setFinalized_large hblock

theorem HeapState.Valid.setFinalized_all (h : s.Valid)
    (hall : ∀ location ∈ locations, ∃ block, s.blockAt location = some block) :
    FinalizedAt s locations (locations.foldl HeapState.setFinalized s) := by
  induction locations generalizing s with
  | nil => exact FinalizedAt.nil h
  | cons location rest ih =>
    obtain ⟨block, hblock⟩ := hall location List.mem_cons_self
    have hfirst := h.setFinalized hblock
    refine hfirst.trans (ih hfirst.valid fun other hother ↦ ?_)
    obtain ⟨otherBlock, hotherBlock⟩ := hall other (List.mem_cons_of_mem _ hother)
    exact ⟨_, by rw [hfirst.blocks, hotherBlock]; rfl⟩

theorem SameBlocks.spansKept (h : SameBlocks s s') : SpansKept s s' := by
  intro index span' hspan'
  obtain ⟨span, hspan, hsame⟩ := h.exists_span hspan'
  have hbase := congrArg Span.base hsame
  have helem := congrArg Span.elemSize hsame
  have hwatermark := congrArg Span.zeroedWatermark hsame
  exact ⟨span, hspan, hbase, helem, hwatermark⟩

/-- The state before the sweep: everything that the finalizers can touch is marked, and their blocks
are finalized and pending. -/
structure Waved (s₀ : HeapState) (mem : Memory) (roots : List ℕ) (pending : List PendingFinalizer)
    (s : HeapState) : Prop where
  valid : s.Valid
  types : s.types = s₀.types
  pendingRoots : s.pendingFinalizerRoots =
    s₀.pendingFinalizerRoots ++ pending.map PendingFinalizer.start
  spanQueue : s.spanQueue = []
  largeQueue : s.largeQueue = []
  blocks : ∀ location, s.blockAt location = (s₀.blockAt location).map fun block ↦
    block.finalizeIf (decide (location ∈ pending.map PendingFinalizer.location))
  marked : ∀ location, s.marked location = true ↔ Reach s₀.classifyPointer (s₀.children mem)
    (roots ++ pending.map PendingFinalizer.start) location
  kept : SpansKept s₀ s
  regions : s.regions.Perm s₀.regions

theorem Marking.finalizerWave {s₀ : HeapState} {mem : Memory} {roots : List ℕ}
    (h : Marking s₀ mem roots [] s) (hspans : s.spanQueue = []) (hlarge : s.largeQueue = [])
    (hall : ∀ entry ∈ pending, ∃ block, s₀.blockAt entry.location = some block) :
    Waved s₀ mem roots pending (s.finalizerWave mem pending) := by
  unfold HeapState.finalizerWave
  cases hpending : pending with
  | nil =>
    have hregions : s.regions.Perm s₀.regions := by rw [h.same.regions]
    exact
      { valid := h.valid
        types := h.same.types
        pendingRoots := by simpa using h.same.pending
        spanQueue := hspans
        largeQueue := hlarge
        blocks := fun location ↦ by simpa using h.same.blockAt location
        marked := fun location ↦ by simpa using h.marked_iff hspans hlarge location
        kept := h.same.spansKept
        regions := hregions }
  | cons entry rest =>
    rw [← hpending]
    have hne : pending.isEmpty = false := by rw [hpending]; rfl
    simp only [hne, Bool.false_eq_true, if_false]
    have howed : Marking s₀ mem (roots ++ pending.map PendingFinalizer.start)
        (pending.map PendingFinalizer.start ++ []) s := { h with tracing := h.tracing.addRoots _ }
    obtain ⟨hdrained, hspans', hlarge'⟩ := howed.markPointers.1.drainMarks
    have hmarked := hdrained.marked_iff hspans' hlarge'
    generalize (s.markPointers (pending.map PendingFinalizer.start)).drainMarks mem = t at *
    have hfinalized : FinalizedAt t (pending.map PendingFinalizer.location)
        ((pending.map PendingFinalizer.location).foldl HeapState.setFinalized t) := by
      apply hdrained.valid.setFinalized_all
      intro location hlocation
      obtain ⟨entry, hentry, rfl⟩ := List.mem_map.mp hlocation
      rw [hdrained.same.blockAt]
      exact hall entry hentry
    have hvalid := hfinalized.valid
    refine
      { valid := { hvalid with }
        types := hfinalized.types.trans hdrained.same.types
        pendingRoots := ?_
        spanQueue := hfinalized.spanQueue.trans hspans'
        largeQueue := hfinalized.largeQueue.trans hlarge'
        blocks := fun location ↦ ?_
        marked := fun location ↦ ?_
        kept := hdrained.same.spansKept.trans hfinalized.kept
        regions := ?_ }
    · rw [hfinalized.pending, hdrained.same.pending]
    · rw [← hdrained.same.blockAt]
      exact hfinalized.blocks location
    · rw [← hmarked, ← hfinalized.marked]
      rfl
    · rw [← hdrained.same.regions]
      exact hfinalized.regions

/-! ## The whole cycle -/

/-- What a cycle does under the lock, in terms of the state before it. -/
structure Collected (w : World) (roots : List ℕ) (cycle : CycleResult) : Prop where
  sound : World.Sound { w with heap := cycle.heap }
  types : cycle.heap.types = w.heap.types
  pendingRoots : cycle.heap.pendingFinalizerRoots =
    w.heap.pendingFinalizerRoots ++ cycle.pending.map PendingFinalizer.start
  pending_nodup : (cycle.pending.map PendingFinalizer.start).Nodup
  pending_iff : ∀ entry, entry ∈ cycle.pending ↔ ∃ block,
    w.heap.blockAt entry.location = some block ∧ entry.start = block.start ∧
      ¬ w.Reaches (roots ++ w.heap.pendingFinalizerRoots) entry.location ∧ block.young = false ∧
      block.finalized = false ∧ w.heap.finalizerOf block.typeId = some entry.finalize
  allocated : ∀ block', cycle.heap.Allocated block' ↔ ∃ location block,
    w.heap.blockAt location = some block ∧
      (w.Reaches (roots ++ w.heap.pendingFinalizerRoots ++ cycle.pending.map PendingFinalizer.start)
        location ∨ block.young = true) ∧
      block' = { block.finalizeIf (decide (block.start ∈ cycle.pending.map PendingFinalizer.start)) with
        young := false }
  kept : SpansKept w.heap cycle.heap
  regions : (cycle.heap.regions ++ cycle.detached).Perm w.heap.regions

/-- The block at a location is pending exactly when its start is. -/
theorem HeapState.Valid.mem_pending_location (h : s.Valid)
    (hall : ∀ entry ∈ pending, ∃ block, s.blockAt entry.location = some block ∧
      entry.start = block.start) (hblock : s.blockAt location = some block) :
    location ∈ pending.map PendingFinalizer.location ↔
      block.start ∈ pending.map PendingFinalizer.start := by
  simp only [List.mem_map]
  constructor
  · rintro ⟨entry, hentry, rfl⟩
    obtain ⟨block', hblock', hstart⟩ := hall entry hentry
    rw [hblock] at hblock'
    cases hblock'
    exact ⟨entry, hentry, hstart⟩
  · rintro ⟨entry, hentry, hstart⟩
    obtain ⟨block', hblock', hstart'⟩ := hall entry hentry
    refine ⟨entry, hentry, h.location_unique hblock' hblock (h.block_contains_start hblock') ?_⟩
    rw [← hstart', hstart]
    exact h.block_contains_start hblock

theorem World.Sound.collectLocked {w : World} (h : w.Sound) (roots : List ℕ) :
    Collected w roots (w.heap.collectLocked w.mem roots) := by
  obtain ⟨hmarking, hspans, hlarge⟩ := h.valid.markPhase h.quiet w.mem roots
  have hreached := hmarking.marked_iff hspans hlarge
  have hcycle : w.heap.collectLocked w.mem roots =
      { heap := ((w.heap.markPhase w.mem roots).finalizerWave w.mem
          (w.heap.markPhase w.mem roots).collectPendingFinalizers).sweep.1
        pending := (w.heap.markPhase w.mem roots).collectPendingFinalizers
        detached := ((w.heap.markPhase w.mem roots).finalizerWave w.mem
          (w.heap.markPhase w.mem roots).collectPendingFinalizers).sweep.2 } := rfl
  rw [hcycle]
  clear hcycle
  generalize w.heap.markPhase w.mem roots = marked at *
  have hpending_iff : ∀ entry, entry ∈ marked.collectPendingFinalizers ↔ ∃ block,
      w.heap.blockAt entry.location = some block ∧ entry.start = block.start ∧
        ¬ w.Reaches (roots ++ w.heap.pendingFinalizerRoots) entry.location ∧ block.young = false ∧
        block.finalized = false ∧ w.heap.finalizerOf block.typeId = some entry.finalize := by
    intro entry
    rw [hmarking.valid.mem_collectPendingFinalizers]
    simp only [hmarking.same.blockAt, HeapState.finalizerOf, hmarking.same.typeInfo, World.Reaches,
      ← hreached, Bool.not_eq_true]
  have hall : ∀ entry ∈ marked.collectPendingFinalizers, ∃ block,
      w.heap.blockAt entry.location = some block ∧ entry.start = block.start := by
    intro entry hentry
    obtain ⟨block, hblock, hstart, _⟩ := (hpending_iff entry).mp hentry
    exact ⟨block, hblock, hstart⟩
  have hnodup := hmarking.valid.nodup_pending_start
  generalize marked.collectPendingFinalizers = pending at *
  have hwaved := hmarking.finalizerWave hspans hlarge fun entry hentry ↦
    (hall entry hentry).imp fun _ h ↦ h.1
  generalize marked.finalizerWave w.mem pending = waved at *
  have hswept := hwaved.valid.swept hwaved.spanQueue hwaved.largeQueue
  generalize waved.sweep = swept at *
  have hkept := hwaved.kept.trans hswept.kept
  refine
    { sound := ⟨hswept.valid, hswept.quiet, ?_⟩
      types := hswept.types.trans hwaved.types
      pendingRoots := hswept.pending.trans hwaved.pendingRoots
      pending_nodup := hnodup
      pending_iff := hpending_iff
      allocated := fun block' ↦ ?_
      kept := hkept
      regions := hswept.regions.trans hwaved.regions }
  · intro index span' hspan' address hlow hhigh
    obtain ⟨span, hspan, hbase, helem, hwatermark⟩ := hkept index span' hspan'
    apply h.zeroed index span hspan address
    · rwa [hbase, helem, hwatermark]
    · rwa [hbase]
  · have hsurvivors := hswept.allocated block'
    simp only [hwaved.blocks, hwaved.marked, Option.map_eq_some_iff] at hsurvivors
    rw [hsurvivors]
    constructor
    · rintro ⟨location, _, ⟨block, hblock, rfl⟩, hsurvives, rfl⟩
      refine ⟨location, block, hblock, hsurvives, ?_⟩
      simp only [h.valid.mem_pending_location hall hblock]
    · rintro ⟨location, block, hblock, hsurvives, rfl⟩
      refine ⟨location, _, ⟨block, hblock, rfl⟩, hsurvives, ?_⟩
      simp only [h.valid.mem_pending_location hall hblock]

end Pon.Gc
