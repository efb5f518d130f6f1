import Pon.Gc.Runs

/-!
# Representation and allocation

In every state of every run the bitmaps, counters and lists of the heap agree with each other, and
therefore every allocation returns a fresh, aligned, zeroed block.
-/

namespace Pon.Gc

/-- The bookkeeping of a span agrees with its allocation bits and with what has been handed out. -/
structure Machine.SpanRepresentation (m : Machine) (span : Span) : Prop where
  live_count : span.liveCount = span.allocBits.count
  alloc_range : ∀ slot, span.nelems ≤ slot → span.allocBits.get slot = false
  mark_range : ∀ slot, span.nelems ≤ slot → span.markBits.get slot = false
  mark_alloc : ∀ slot, span.markBits.get slot = true → span.allocBits.get slot = true
  never_allocated : ∀ slot, span.zeroedWatermark ≤ slot → slot < span.nelems →
    span.allocBits.get slot = false ∧ ¬ handedOut m.log (span.slotAddress slot)
  hint : ∀ slot < span.freeHint, span.allocBits.get slot = true

/-- The representation invariant of the heap. -/
structure Machine.Representation (m : Machine) : Prop where
  spans : ∀ index span, m.world.heap.span? index = some span → m.SpanRepresentation span
  index_sorted : m.world.heap.spanBaseIndex.Pairwise fun a b ↦ a.1 < b.1
  index_exact : ∀ base index, (base, index) ∈ m.world.heap.spanBaseIndex ↔
    ∃ span, m.world.heap.span? index = some span ∧ span.base = base
  open_exists : ∀ sizeClass index, m.world.heap.openSpan sizeClass = some index →
    m.world.heap.HasSpan sizeClass index
  partial_exists : ∀ sizeClass, ∀ index ∈ m.world.heap.partialSpans sizeClass,
    m.world.heap.HasSpan sizeClass index

theorem Machine.Inv.spanRepresentation {m : Machine} (h : m.Inv) {index : ℕ} {span : Span}
    (hspan : m.world.heap.span? index = some span) : m.SpanRepresentation span := by
  have hvalid := h.sound.valid.spans index span hspan
  have hrange : ∀ slot, span.nelems ≤ slot → span.allocBits.get slot = false := by
    intro slot hle
    by_contra hset
    have := hvalid.alloc_lt slot (by simpa using hset)
    omega
  refine
    { hvalid with
      live_count := hvalid.live
      alloc_range := hrange
      mark_range := ?_
      never_allocated := ?_ }
  · intro slot hle
    by_contra hset
    have halloc := hvalid.mark_alloc slot (by simpa using hset)
    rw [hrange slot hle] at halloc
    cases halloc
  · intro slot hwatermark hslot
    refine ⟨?_, fun hhanded ↦ ?_⟩
    · by_contra hset
      have := hvalid.watermark slot (by simpa using hset)
      omega
    · have hend := hvalid.slot_end_le hslot
      have hpos := hvalid.elemSize_pos
      have hmul := Nat.mul_le_mul_right span.elemSize hwatermark
      have hin : InRegion (span.base, spanBytes) (span.slotAddress slot) := by
        simp only [InRegion, Span.slotAddress]
        omega
      have hbelow := h.handed_below _ hhanded index span hspan hin
      simp only [Span.slotAddress] at hbelow
      omega

theorem Machine.Inv.representation {m : Machine} (h : m.Inv) : m.Representation :=
  { h.sound.valid with
    spans := fun _ _ hspan ↦ h.spanRepresentation hspan
    index_exact := h.sound.valid.index_iff }

/-- The result of an allocation: the new block is aligned, large enough, zero and disjoint from every
block that was allocated before. -/
structure FreshBlock (w : World) (size : ℕ) (w' : World) (block : Block) : Prop where
  allocated : w'.heap.Allocated block
  aligned : 16 ∣ block.start
  size_le : size ≤ block.size
  zero : ∀ address, block.Contains address → w'.mem address = 0
  disjoint : ∀ other, w.heap.Allocated other →
    w'.heap.Allocated other ∧ ∀ address, other.Contains address → ¬ block.Contains address

theorem Allocates.freshBlock {size typeId fresh : ℕ} {w w' : World} {location : ObjectLocation}
    {block : Block} (h : Allocates size typeId fresh w w' location block) : FreshBlock w size w' block :=
  { h with
    allocated := (h.allocated_iff block).mpr (Or.inl rfl)
    disjoint := fun other hother ↦
      ⟨(h.allocated_iff other).mpr (Or.inr hother), fun _ hcontains ↦ h.disjoint hother hcontains⟩ }

/-- The representation invariant holds in every state of every run. Every allocation of a registered
type returns after at most two rounds of the slot search, whatever memory the system allocator
provides. -/
theorem heap_representation {m : Machine} (h : Reached m) :
    m.Representation ∧ ∀ size typeId fresh, (m.world.heap.typeInfo typeId).isSome →
      m.Fresh (requestLayout size) fresh →
        ∃ w block, (∀ rounds, m.world.alloc (rounds + 2) size typeId fresh = some (w, block.start)) ∧
          FreshBlock m.world size w block := by
  refine ⟨h.inv.representation, fun size typeId fresh hregistered hfresh ↦ ?_⟩
  obtain ⟨info, hinfo⟩ := Option.isSome_iff_exists.mp hregistered
  obtain ⟨w, location, block, hallocates, hreturns, _⟩ := h.inv.sound.alloc hinfo hfresh.forHeap
  exact ⟨w, block, hreturns, hallocates.freshBlock⟩

/-- A type whose objects hold no pointers. -/
def leafInfo : GcTypeInfo where
  trace _ _ := []
  finalize := none

def leafMachine : Machine where
  world := { heap := { HeapState.new with types := [some leafInfo] }, mem := fun _ ↦ 0 }
  frames := []
  log := []

theorem reached_leafMachine : Reached leafMachine :=
  .next (a := .register 0 leafInfo) (.start ⟨fun _ ↦ 0, rfl⟩) trivial (.register rfl)

/-- The heap of `leafMachine` after the allocation of one small object. -/
def leafAllocated : World × ℕ :=
  (leafMachine.world.alloc 2 1024 0 65536).get rfl

def leafMachineAllocated : Machine where
  world := leafAllocated.1
  frames := []
  log := [.alloc leafAllocated.2]

theorem leafMachine_fresh : leafMachine.Fresh (requestLayout 1024) 65536 :=
  ⟨by norm_num, by decide, fun region hmem ↦ by cases hmem⟩

theorem reached_leafMachineAllocated : Reached leafMachineAllocated := by
  have halloc : leafMachine.world.alloc 2 1024 0 65536 = some (leafAllocated.1, leafAllocated.2) :=
    (Option.some_get rfl).symm
  exact .next (a := .alloc 1024 0 65536) reached_leafMachine trivial (.alloc leafMachine_fresh halloc)

theorem leafMachineAllocated_fresh : leafMachineAllocated.Fresh (requestLayout 1024) 131072 where
  pos := by norm_num
  aligned := by decide
  disjoint := by
    have hheld : leafMachineAllocated.held = [(65536, 65536)] := rfl
    rw [hheld]
    intro region hmem
    obtain rfl := List.mem_singleton.mp hmem
    exact Or.inr (by decide)

/-- After one object of the largest size class, the second gets the next slot of the same span. -/
theorem heap_representation_small :
    leafMachineAllocated.Representation ∧
      ∃ w block, leafMachineAllocated.world.alloc 2 1024 0 131072 = some (w, 66560) ∧
        FreshBlock leafMachineAllocated.world 1024 w block := by
  obtain ⟨hrepresentation, halloc⟩ := heap_representation reached_leafMachineAllocated
  obtain ⟨w, block, hreturns, hfresh⟩ := halloc 1024 0 131072 rfl leafMachineAllocated_fresh
  refine ⟨hrepresentation, w, block, ?_, hfresh⟩
  have hstart : (leafMachineAllocated.world.alloc 2 1024 0 131072).map Prod.snd = some 66560 := by
    decide
  rw [hreturns 0, Option.map_some, Option.some.injEq] at hstart
  rw [hreturns 0, ← hstart]

end Pon.Gc
