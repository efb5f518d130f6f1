import Pon.Gc.Runs

/-!
# The size of the heap

The blocks of a heap as a list, and their total size. An allocation adds one block, marking and
finalizing keep their sizes, and a sweep splits the blocks into those that it keeps and those whose
bytes it counts as reclaimed.
-/

namespace Pon.Gc

def Block.region (block : Block) : ℕ × ℕ := (block.start, block.size)

def totalSize (blocks : List Block) : ℕ := (blocks.map Block.size).sum

/-- Blocks of the chosen slots and of the chosen large objects. -/
def HeapState.blocksOf (s : HeapState) (slots : Span → Bitmap) (objects : LargeObject → Bool) :
    List Block :=
  (s.spans.flatMap fun span ↦ span.elim [] fun span ↦ (slots span).indices.map span.block) ++
    (s.large.filter objects).map LargeObject.block

/-- The allocated blocks. -/
def HeapState.blocks (s : HeapState) : List Block :=
  s.blocksOf Span.allocBits fun _ ↦ true

/-- The total size of the allocated blocks. -/
def HeapState.allocatedBytes (s : HeapState) : ℕ := totalSize s.blocks

section Blocks

variable {s : HeapState} {slots : Span → Bitmap} {objects : LargeObject → Bool} {block : Block}

theorem HeapState.mem_blocksOf : block ∈ s.blocksOf slots objects ↔
    (∃ index span slot, s.span? index = some span ∧ (slots span).get slot = true ∧
      span.block slot = block) ∨
    ∃ object ∈ s.large, objects object = true ∧ object.block = block := by
  simp only [HeapState.blocksOf, List.mem_append, List.mem_flatMap, List.mem_map, List.mem_filter,
    and_assoc]
  refine or_congr ?_ Iff.rfl
  constructor
  · rintro ⟨entry, mem, inside⟩
    cases entry with
    | none => cases inside
    | some span =>
      obtain ⟨slot, chosen, rfl⟩ := List.mem_map.mp inside
      obtain ⟨index, found⟩ := List.mem_iff_getElem?.mp mem
      exact ⟨index, span, slot, HeapState.span?_eq_some.mpr found, Bitmap.mem_indices.mp chosen, rfl⟩
  · rintro ⟨index, span, slot, found, chosen, rfl⟩
    exact ⟨some span, List.mem_of_getElem? (HeapState.span?_eq_some.mp found),
      List.mem_map.mpr ⟨slot, Bitmap.mem_indices.mpr chosen, rfl⟩⟩

/-- The chosen slots are allocated. -/
def HeapState.Chooses (s : HeapState) (slots : Span → Bitmap) : Prop :=
  ∀ index span, s.span? index = some span →
    ∀ slot, (slots span).get slot = true → span.allocBits.get slot = true

theorem HeapState.chooses_allocBits : s.Chooses Span.allocBits := fun _ _ _ _ set ↦ set

variable (h : s.Valid)
include h

theorem HeapState.Valid.blockAt_of_chosen (chooses : s.Chooses slots) {index slot : ℕ}
    {span : Span} (found : s.span? index = some span) (chosen : (slots span).get slot = true) :
    s.blockAt (.span index slot) = some (span.block slot) := by
  have allocated := chooses index span found slot chosen
  exact HeapState.blockAt_span_eq_some.mpr
    ⟨span, found, (h.spans index span found).alloc_lt slot allocated, allocated, rfl⟩

theorem HeapState.Valid.mem_blocks : block ∈ s.blocks ↔ s.Allocated block := by
  rw [HeapState.blocks, HeapState.mem_blocksOf]
  constructor
  · rintro (⟨index, span, slot, found, chosen, rfl⟩ | ⟨object, mem, -, rfl⟩)
    · exact ⟨.span index slot, h.blockAt_of_chosen HeapState.chooses_allocBits found chosen⟩
    · obtain ⟨index, found⟩ := List.mem_iff_getElem?.mp mem
      exact ⟨.large index, HeapState.blockAt_large_eq_some.mpr ⟨object, found, rfl⟩⟩
  · rintro ⟨location, found⟩
    cases location with
    | span index slot =>
      obtain ⟨span, hspan, -, allocated, same⟩ := HeapState.blockAt_span_eq_some.mp found
      exact .inl ⟨index, span, slot, hspan, allocated, same⟩
    | large index =>
      obtain ⟨object, hobject, same⟩ := HeapState.blockAt_large_eq_some.mp found
      exact .inr ⟨object, List.mem_of_getElem? hobject, rfl, same⟩

/-- Locations hold different blocks. -/
theorem HeapState.Valid.location_inj {location location' : ObjectLocation}
    (found : s.blockAt location = some block) (found' : s.blockAt location' = some block) :
    location = location' :=
  h.location_unique found found' (h.block_contains_start found) (h.block_contains_start found)

theorem HeapState.Valid.nodup_large : (s.large.map LargeObject.block).Nodup := by
  rw [List.nodup_iff_getElem?_ne_getElem?]
  intro i j lt bound same
  rw [List.length_map] at bound
  have within : i < s.large.length := lt.trans bound
  have first : s.blockAt (.large i) = some s.large[i].block := by
    simp [HeapState.blockAt, List.getElem?_eq_getElem within]
  have second : s.blockAt (.large j) = s.blockAt (.large i) := by
    simpa only [HeapState.blockAt, List.getElem?_map] using same.symm
  exact lt.ne (ObjectLocation.large.inj (h.location_inj first (second.trans first)))

theorem HeapState.Valid.nodup_slots (chooses : s.Chooses slots) :
    (s.spans.flatMap fun span ↦ span.elim [] fun span ↦
      (slots span).indices.map span.block).Nodup := by
  rw [List.nodup_flatMap, List.pairwise_iff_getElem]
  constructor
  · intro entry mem
    cases entry with
    | none => exact List.nodup_nil
    | some span =>
      obtain ⟨index, found⟩ := List.mem_iff_getElem?.mp mem
      refine (Bitmap.nodup_indices _).map_on fun slot chosen slot' chosen' same ↦ ?_
      have located := h.blockAt_of_chosen chooses (HeapState.span?_eq_some.mpr found)
        (Bitmap.mem_indices.mp chosen)
      have located' := h.blockAt_of_chosen chooses (HeapState.span?_eq_some.mpr found)
        (Bitmap.mem_indices.mp chosen')
      exact (ObjectLocation.span.inj (h.location_inj located (same ▸ located'))).2
  · intro i j hi hj lt block first second
    obtain ⟨span, entry⟩ : ∃ span, s.spans[i] = some span := by
      cases entry : s.spans[i] with
      | none => simp [entry] at first
      | some span => exact ⟨span, rfl⟩
    obtain ⟨span', entry'⟩ : ∃ span, s.spans[j] = some span := by
      cases entry : s.spans[j] with
      | none => simp [entry] at second
      | some span => exact ⟨span, rfl⟩
    simp only [entry, entry', Option.elim_some, List.mem_map, Bitmap.mem_indices] at first second
    obtain ⟨slot, chosen, rfl⟩ := first
    obtain ⟨slot', chosen', same⟩ := second
    have found : s.span? i = some span :=
      HeapState.span?_eq_some.mpr (by rw [List.getElem?_eq_getElem hi, entry])
    have found' : s.span? j = some span' :=
      HeapState.span?_eq_some.mpr (by rw [List.getElem?_eq_getElem hj, entry'])
    have located := h.blockAt_of_chosen chooses found chosen
    have located' := h.blockAt_of_chosen chooses found' chosen'
    exact lt.ne (ObjectLocation.span.inj (h.location_inj located (same ▸ located'))).1

theorem HeapState.Valid.nodup_blocksOf (chooses : s.Chooses slots) :
    (s.blocksOf slots objects).Nodup := by
  have large : ((s.large.filter objects).map LargeObject.block).Nodup :=
    h.nodup_large.sublist (List.filter_sublist.map _)
  refine (h.nodup_slots chooses).append large fun block first second ↦ ?_
  obtain ⟨entry, mem, inside⟩ := List.mem_flatMap.mp first
  obtain ⟨object, kept, rfl⟩ := List.mem_map.mp second
  cases entry with
  | none => cases inside
  | some span =>
    obtain ⟨slot, chosen, same⟩ := List.mem_map.mp inside
    obtain ⟨index, found⟩ := List.mem_iff_getElem?.mp mem
    obtain ⟨place, hobject⟩ := List.mem_iff_getElem?.mp (List.mem_filter.mp kept).1
    have located := h.blockAt_of_chosen chooses (HeapState.span?_eq_some.mpr found)
      (Bitmap.mem_indices.mp chosen)
    have located' : s.blockAt (.large place) = some object.block :=
      HeapState.blockAt_large_eq_some.mpr ⟨object, hobject, rfl⟩
    cases h.location_inj (same ▸ located) located'

theorem HeapState.Valid.nodup_blocks : s.blocks.Nodup :=
  h.nodup_blocksOf HeapState.chooses_allocBits

/-- No two blocks lie in one region. -/
theorem HeapState.Valid.nodup_regions : (s.blocks.map Block.region).Nodup := by
  refine h.nodup_blocks.map_on fun block mem block' mem' same ↦ ?_
  exact h.allocated_unique (h.mem_blocks.mp mem) (h.mem_blocks.mp mem') (congrArg Prod.fst same)

end Blocks

theorem totalSize_append (left right : List Block) :
    totalSize (left ++ right) = totalSize left + totalSize right := by
  rw [totalSize, List.map_append, List.sum_append]
  rfl

theorem totalSize_cons (block : Block) (rest : List Block) :
    totalSize (block :: rest) = block.size + totalSize rest := by
  rw [totalSize, List.map_cons, List.sum_cons]
  rfl

/-- Lists with the same regions have the same size. -/
theorem totalSize_eq_of_perm {left right : List Block}
    (h : (left.map Block.region).Perm (right.map Block.region)) : totalSize left = totalSize right := by
  have sizes := (h.map Prod.snd).sum_eq
  rwa [List.map_map, List.map_map] at sizes

/-- The size of the chosen blocks, span by span and object by object. -/
theorem HeapState.totalSize_blocksOf (s : HeapState) (slots : Span → Bitmap)
    (objects : LargeObject → Bool) :
    totalSize (s.blocksOf slots objects) =
      (s.spans.map fun span ↦ span.elim 0 fun span ↦ (slots span).count * span.elemSize).sum +
        ((s.large.filter objects).map LargeObject.size).sum := by
  have small : ∀ spans : List (Option Span),
      totalSize (spans.flatMap fun span ↦ span.elim [] fun span ↦
        (slots span).indices.map span.block) =
      (spans.map fun span ↦ span.elim 0 fun span ↦ (slots span).count * span.elemSize).sum := by
    intro spans
    induction spans with
    | nil => rfl
    | cons entry rest ih =>
      rw [List.flatMap_cons, totalSize_append, ih, List.map_cons, List.sum_cons]
      cases entry with
      | none => rfl
      | some span =>
        have sizes : ((slots span).indices.map span.block).map Block.size =
            (slots span).indices.map fun _ ↦ span.elemSize := by
          rw [List.map_map]
          rfl
        rw [totalSize, Option.elim_some, sizes, List.map_const', List.sum_replicate,
          Bitmap.length_indices]
        rfl
  rw [HeapState.blocksOf, totalSize_append, small, totalSize, List.map_map]
  rfl

section Bytes

variable {s s' : HeapState}

/-- States with blocks in the same regions have the same size. -/
theorem HeapState.Valid.allocatedBytes_congr (h : s.Valid) (h' : s'.Valid)
    (same : ∀ location, (s'.blockAt location).map Block.region = (s.blockAt location).map Block.region) :
    s'.allocatedBytes = s.allocatedBytes := by
  refine totalSize_eq_of_perm
    ((List.perm_ext_iff_of_nodup h'.nodup_regions h.nodup_regions).mpr fun region ↦ ?_)
  simp only [List.mem_map, h.mem_blocks, h'.mem_blocks, HeapState.Allocated]
  have located : ∀ location, (∃ block, s'.blockAt location = some block ∧ block.region = region) ↔
      ∃ block, s.blockAt location = some block ∧ block.region = region := by
    intro location
    rw [← Option.map_eq_some_iff, ← Option.map_eq_some_iff, same]
  constructor
  · rintro ⟨block, ⟨location, found⟩, equal⟩
    obtain ⟨block', found', equal'⟩ := (located location).mp ⟨block, found, equal⟩
    exact ⟨block', ⟨location, found'⟩, equal'⟩
  · rintro ⟨block, ⟨location, found⟩, equal⟩
    obtain ⟨block', found', equal'⟩ := (located location).mpr ⟨block, found, equal⟩
    exact ⟨block', ⟨location, found'⟩, equal'⟩

/-- An allocation adds its block. -/
theorem Allocates.allocatedBytes {size typeId fresh : ℕ} {w w' : World} {location : ObjectLocation}
    {block : Block} (h : Allocates size typeId fresh w w' location block) (sound : w.Sound) :
    w'.heap.allocatedBytes = w.heap.allocatedBytes + block.size := by
  have valid := sound.valid
  have new : block ∉ w.heap.blocks := by
    intro mem
    have allocated : w'.heap.blockAt location = some block := by rw [h.blocks, if_pos rfl]
    have start := h.sound.valid.block_contains_start allocated
    exact h.disjoint (valid.mem_blocks.mp mem) start start
  have perm : w'.heap.blocks.Perm (block :: w.heap.blocks) := by
    refine (List.perm_ext_iff_of_nodup h.sound.valid.nodup_blocks
      (List.nodup_cons.mpr ⟨new, valid.nodup_blocks⟩)).mpr fun other ↦ ?_
    rw [h.sound.valid.mem_blocks, h.allocated_iff, List.mem_cons, valid.mem_blocks]
  rw [HeapState.allocatedBytes, totalSize_eq_of_perm (perm.map _), totalSize_cons, add_comm]
  rfl

end Bytes

/-- The slots that a sweep frees. -/
def Span.freedBits (span : Span) : Bitmap := span.allocBits.andNot span.keepBits

/-- `reclaimed` of `sweep`: the bytes of the freed slots and of the dead large objects. -/
def HeapState.reclaimed (s : HeapState) : ℕ :=
  (s.spans.map fun span ↦ span.elim 0 fun span ↦ span.freedBits.count * span.elemSize).sum +
    ((s.large.filter (!LargeObject.survives ·)).map LargeObject.size).sum

/-- `reclaimed` of the sweep in `Heap::collect`. -/
def HeapState.collectReclaimed (s : HeapState) (mem : Memory) (roots : List ℕ) : ℕ :=
  let marked := s.markPhase mem roots
  let pending := marked.collectPendingFinalizers
  (marked.finalizerWave mem pending).reclaimed

/-- The blocks that a sweep frees. -/
def HeapState.freedBlocks (s : HeapState) : List Block :=
  s.blocksOf Span.freedBits (!LargeObject.survives ·)

section Sweep

variable {s s' : HeapState} {detached : List (ℕ × ℕ)} {block : Block}

theorem HeapState.reclaimed_eq (s : HeapState) : s.reclaimed = totalSize s.freedBlocks :=
  (s.totalSize_blocksOf _ _).symm

theorem SpanValid.get_freedBits {span : Span} (h : SpanValid span) (slot : ℕ) :
    span.freedBits.get slot =
      (span.allocBits.get slot && !(span.markBits.get slot || span.youngBits.get slot)) := by
  have length : span.allocBits.length = span.keepBits.length := by
    simp [Span.keepBits, h.alloc_length, h.mark_length, h.young_length]
  rw [Span.freedBits, Bitmap.get_andNot length, h.get_keepBits]
  cases span.allocBits.get slot <;> rfl

theorem HeapState.Valid.chooses_freedBits (h : s.Valid) : s.Chooses Span.freedBits := by
  intro index span found slot freed
  rw [(h.spans index span found).get_freedBits, Bool.and_eq_true] at freed
  exact freed.1

/-- A sweep frees the blocks that are neither marked nor young. -/
theorem HeapState.Valid.mem_freedBlocks (h : s.Valid) : block ∈ s.freedBlocks ↔
    ∃ location, s.blockAt location = some block ∧
      ¬ (s.marked location = true ∨ block.young = true) := by
  rw [HeapState.freedBlocks, HeapState.mem_blocksOf]
  constructor
  · rintro (⟨index, span, slot, found, freed, rfl⟩ | ⟨object, mem, dead, rfl⟩)
    · refine ⟨.span index slot, h.blockAt_of_chosen h.chooses_freedBits found freed, ?_⟩
      rw [(h.spans index span found).get_freedBits] at freed
      simpa [HeapState.marked, found, Span.block] using (Bool.and_eq_true_iff.mp freed).2
    · obtain ⟨index, found⟩ := List.mem_iff_getElem?.mp mem
      refine ⟨.large index, HeapState.blockAt_large_eq_some.mpr ⟨object, found, rfl⟩, ?_⟩
      simpa [HeapState.marked, found, LargeObject.survives, LargeObject.block] using dead
  · rintro ⟨location, found, dead⟩
    cases location with
    | span index slot =>
      obtain ⟨span, hspan, -, allocated, rfl⟩ := HeapState.blockAt_span_eq_some.mp found
      refine .inl ⟨index, span, slot, hspan, ?_, rfl⟩
      rw [(h.spans index span hspan).get_freedBits, allocated]
      simpa [HeapState.marked, hspan, Span.block] using dead
    | large index =>
      obtain ⟨object, hobject, rfl⟩ := HeapState.blockAt_large_eq_some.mp found
      refine .inr ⟨object, List.mem_of_getElem? hobject, ?_, rfl⟩
      simpa [HeapState.marked, hobject, LargeObject.survives, LargeObject.block] using dead

/-- A sweep takes the reclaimed bytes from the size of the heap. -/
theorem Swept.allocatedBytes (h : Swept s s' detached) (valid : s.Valid) :
    s'.allocatedBytes + s.reclaimed = s.allocatedBytes := by
  have freed : (s.freedBlocks.map Block.region).Nodup := by
    refine (valid.nodup_blocksOf valid.chooses_freedBits).map_on fun block mem block' mem' same ↦ ?_
    obtain ⟨location, found, -⟩ := valid.mem_freedBlocks.mp mem
    obtain ⟨location', found', -⟩ := valid.mem_freedBlocks.mp mem'
    exact valid.allocated_unique ⟨location, found⟩ ⟨location', found'⟩ (congrArg Prod.fst same)
  have kept : ∀ region, region ∈ s'.blocks.map Block.region ↔ ∃ location block,
      s.blockAt location = some block ∧ (s.marked location = true ∨ block.young = true) ∧
        block.region = region := by
    intro region
    simp only [List.mem_map, h.valid.mem_blocks, h.allocated]
    constructor
    · rintro ⟨_, ⟨location, block, found, survives, rfl⟩, rfl⟩
      exact ⟨location, block, found, survives, rfl⟩
    · rintro ⟨location, block, found, survives, rfl⟩
      exact ⟨_, ⟨location, block, found, survives, rfl⟩, rfl⟩
  have apart : List.Disjoint (s'.blocks.map Block.region) (s.freedBlocks.map Block.region) := by
    intro region survivor dead
    obtain ⟨location, block, found, survives, rfl⟩ := (kept region).mp survivor
    obtain ⟨block', mem, same⟩ := List.mem_map.mp dead
    obtain ⟨location', found', dies⟩ := valid.mem_freedBlocks.mp mem
    obtain rfl := valid.allocated_unique ⟨location', found'⟩ ⟨location, found⟩ (congrArg Prod.fst same)
    obtain rfl := valid.location_inj found found'
    exact dies survives
  have perm : ((s'.blocks ++ s.freedBlocks).map Block.region).Perm (s.blocks.map Block.region) := by
    rw [List.map_append]
    refine (List.perm_ext_iff_of_nodup (h.valid.nodup_regions.append freed apart)
      valid.nodup_regions).mpr fun region ↦ ?_
    rw [List.mem_append, kept]
    simp only [List.mem_map, valid.mem_freedBlocks, valid.mem_blocks]
    constructor
    · rintro (⟨location, block, found, -, rfl⟩ | ⟨block, ⟨location, found, -⟩, rfl⟩)
      · exact ⟨block, ⟨location, found⟩, rfl⟩
      · exact ⟨block, ⟨location, found⟩, rfl⟩
    · rintro ⟨block, ⟨location, found⟩, rfl⟩
      by_cases survives : s.marked location = true ∨ block.young = true
      · exact .inl ⟨location, block, found, survives, rfl⟩
      · exact .inr ⟨block, ⟨location, found, survives⟩, rfl⟩
  rw [HeapState.allocatedBytes, s.reclaimed_eq, ← totalSize_append, totalSize_eq_of_perm perm]
  rfl

end Sweep

/-- A collection takes the bytes that it has counted as reclaimed from the size of the heap. -/
theorem World.Sound.collect_allocatedBytes {w : World} (h : w.Sound) (roots : List ℕ) :
    (w.heap.collectLocked w.mem roots).heap.allocatedBytes + w.heap.collectReclaimed w.mem roots =
      w.heap.allocatedBytes := by
  obtain ⟨marking, spans, large⟩ := h.valid.markPhase h.quiet w.mem roots
  have pending : ∀ entry ∈ (w.heap.markPhase w.mem roots).collectPendingFinalizers, ∃ block,
      w.heap.blockAt entry.location = some block := by
    intro entry mem
    obtain ⟨block, found, -⟩ := marking.valid.mem_collectPendingFinalizers.mp mem
    exact ⟨block, (marking.same.blockAt entry.location).symm.trans found⟩
  have waved := marking.finalizerWave spans large pending
  have swept := waved.valid.swept waved.spanQueue waved.largeQueue
  refine (swept.allocatedBytes waved.valid).trans
    (h.valid.allocatedBytes_congr waved.valid fun location ↦ ?_)
  rw [waved.blocks, Option.map_map]
  rfl

end Pon.Gc
