import Pon.Gc.Representation

/-!
# Classification of words

A word of a stack or of an object may be a pointer into the heap, to the start of a block or inside it.
In every state of every run a word resolves to the start of the block that contains it, and words in free
slots, in the tail of a span or outside of the heap resolve to nothing.
-/

namespace Pon.Gc

/-- `classify_pointer`: the state with the index of the large objects up to date, and the start of the
object that contains the address. -/
def HeapState.classifyStart (s : HeapState) (address : ℕ) : HeapState × Option ℕ :=
  let s := s.prepareLargeIndex
  if address = 0 then (s, none)
  else
    let base := spanBaseOf address
    match s.findBase base with
    | some spanIndex =>
      match s.span? spanIndex with
      | none => (s, none)
      | some span =>
        let slot := (address - base) / span.elemSize
        if span.nelems ≤ slot || !span.allocBits.get slot then (s, none)
        else (s, some (span.slotAddress slot))
    | none =>
      match s.findLarge address with
      | none => (s, none)
      | some (start, largeIndex) =>
        match s.large[largeIndex]? with
        | none => (s, none)
        | some large => (s, if address - start < large.size then some large.start else none)

/-- The address lies in a slot of a span that is not allocated. -/
def HeapState.InFreeSlot (s : HeapState) (address : ℕ) : Prop :=
  ∃ index span slot, s.span? index = some span ∧ slot < span.nelems ∧
    span.allocBits.get slot = false ∧ InRegion (span.slotAddress slot, span.elemSize) address

/-- The address lies behind the last slot of a span. -/
def HeapState.InSpanTail (s : HeapState) (address : ℕ) : Prop :=
  ∃ index span, s.span? index = some span ∧ span.slotAddress span.nelems ≤ address ∧
    address < span.base + spanBytes

section Prepared

variable (s : HeapState)

theorem HeapState.prepareLargeIndex_blockAt (location : ObjectLocation) :
    s.prepareLargeIndex.blockAt location = s.blockAt location := by
  unfold HeapState.prepareLargeIndex
  split <;> rfl

theorem HeapState.prepareLargeIndex_prepareLargeIndex :
    s.prepareLargeIndex.prepareLargeIndex = s.prepareLargeIndex := by
  rw [HeapState.prepareLargeIndex, if_neg (by simp [s.prepareLargeIndex_clean])]

end Prepared

section Valid

variable {s : HeapState} {address : ℕ}

/-- The lookup gives the start of the object that the marker resolves the word to. -/
theorem HeapState.classifyStart_snd (s : HeapState) (address : ℕ) :
    (s.classifyStart address).2 =
      ((s.prepareLargeIndex.classifyPointer address).bind s.prepareLargeIndex.blockAt).map
        Block.start := by
  unfold HeapState.classifyStart HeapState.classifyPointer
  rw [HeapState.prepareLargeIndex_prepareLargeIndex]
  dsimp only
  by_cases zero : address = 0
  · rw [if_pos zero, if_pos zero]
    rfl
  rw [if_neg zero, if_neg zero]
  cases s.prepareLargeIndex.findBase (spanBaseOf address) with
  | some index =>
    dsimp only
    cases spanAt : s.prepareLargeIndex.span? index with
    | none => rfl
    | some span =>
      dsimp only
      split_ifs with free
      · rfl
      · simp only [Bool.or_eq_true, decide_eq_true_eq, Bool.not_eq_true', not_or, not_le,
          Bool.not_eq_false] at free
        simp [HeapState.blockAt, spanAt, free, Span.block]
  | none =>
    dsimp only
    cases s.prepareLargeIndex.findLarge address with
    | none => rfl
    | some entry =>
      obtain ⟨start, index⟩ := entry
      dsimp only
      cases largeAt : s.prepareLargeIndex.large[index]? with
      | none => rfl
      | some large =>
        dsimp only
        by_cases inside : address - start < large.size
        · rw [if_pos inside, if_neg (not_le.mpr inside)]
          simp [HeapState.blockAt, largeAt, LargeObject.block]
        · rw [if_neg inside, if_pos (not_lt.mp inside)]
          rfl

/-- A word resolves to a start if and only if the allocated block there contains it. -/
theorem HeapState.Valid.classifyStart_eq_some (h : s.Valid) {start : ℕ} :
    (s.classifyStart address).2 = some start ↔
      ∃ block, s.Allocated block ∧ block.start = start ∧ block.Contains address := by
  rw [HeapState.classifyStart_snd, Option.map_eq_some_iff]
  constructor
  · rintro ⟨block, found, rfl⟩
    obtain ⟨location, resolved, isBlock⟩ := Option.bind_eq_some_iff.mp found
    obtain ⟨other, isOther, contains⟩ := h.prepareLargeIndex.classifyPointer_eq_some.mp resolved
    obtain rfl := Option.some.inj (isBlock.symm.trans isOther)
    rw [s.prepareLargeIndex_blockAt] at isBlock
    exact ⟨block, ⟨location, isBlock⟩, rfl, contains⟩
  · rintro ⟨block, ⟨location, isBlock⟩, rfl, contains⟩
    rw [← s.prepareLargeIndex_blockAt] at isBlock
    have resolved := h.prepareLargeIndex.classifyPointer_eq_some.mpr ⟨block, isBlock, contains⟩
    exact ⟨block, by rw [resolved, Option.bind_some, isBlock], rfl⟩

theorem HeapState.Valid.not_contains_of_free (h : s.Valid) (free : s.InFreeSlot address)
    {block : Block} (allocated : s.Allocated block) : ¬block.Contains address := by
  intro contains
  obtain ⟨index, span, slot, spanAt, inside, unused, inSlot⟩ := free
  have valid := h.spans index span spanAt
  have inBlock : (span.block slot).Contains address := inSlot
  have inSpan := valid.contains_span inside inBlock
  have alloc := (h.alloc_of_contains spanAt inSpan allocated contains).2
  rw [(valid.contains_iff inSpan.1).mp inBlock, unused] at alloc
  cases alloc

theorem HeapState.Valid.not_contains_of_tail (h : s.Valid) (tail : s.InSpanTail address)
    {block : Block} (allocated : s.Allocated block) : ¬block.Contains address := by
  intro contains
  obtain ⟨index, span, spanAt, behind, before⟩ := tail
  have positive := (h.spans index span spanAt).elemSize_pos
  have low : span.base ≤ address := (Nat.le_add_right _ _).trans behind
  have slot := (h.alloc_of_contains spanAt ⟨low, before⟩ allocated contains).1
  rw [Nat.div_lt_iff_lt_mul positive] at slot
  unfold Span.slotAddress at behind
  omega

theorem HeapState.Valid.classifyStart_eq_none (h : s.Valid)
    (outside : ∀ block, s.Allocated block → ¬block.Contains address) :
    (s.classifyStart address).2 = none := by
  cases found : (s.classifyStart address).2 with
  | none => rfl
  | some start =>
    obtain ⟨block, allocated, -, contains⟩ := h.classifyStart_eq_some.mp found
    exact absurd contains (outside block allocated)

end Valid

/-- In every state of every run a word resolves to the start of the allocated block that contains it. A
word in a free slot, in the tail of a span or outside of the heap resolves to nothing. -/
theorem classifyStart_spec {m : Machine} (reached : Reached m) (address : ℕ) :
    (∀ start, (m.world.heap.classifyStart address).2 = some start ↔
      ∃ block, m.world.heap.Allocated block ∧ block.start = start ∧ block.Contains address) ∧
    (m.world.heap.InFreeSlot address → (m.world.heap.classifyStart address).2 = none) ∧
    (m.world.heap.InSpanTail address → (m.world.heap.classifyStart address).2 = none) ∧
    ((∀ region ∈ m.world.heap.regions, ¬InRegion region address) →
      (m.world.heap.classifyStart address).2 = none) := by
  have valid := reached.inv.sound.valid
  refine ⟨fun start ↦ valid.classifyStart_eq_some, fun free ↦ ?_, fun tail ↦ ?_, fun outside ↦ ?_⟩
  · exact valid.classifyStart_eq_none fun _ allocated ↦ valid.not_contains_of_free free allocated
  · exact valid.classifyStart_eq_none fun _ allocated ↦ valid.not_contains_of_tail tail allocated
  · refine valid.classifyStart_eq_none fun _ allocated contains ↦ ?_
    obtain ⟨region, mem, inside⟩ := valid.exists_region allocated contains
    exact outside region mem inside

theorem classifyStart_spec_small :
    (leafMachineAllocated.world.heap.classifyStart 66000).2 = some 65536 ↔
      ∃ block, leafMachineAllocated.world.heap.Allocated block ∧ block.start = 65536 ∧
        block.Contains 66000 :=
  (classifyStart_spec reached_leafMachineAllocated 66000).1 65536

end Pon.Gc
