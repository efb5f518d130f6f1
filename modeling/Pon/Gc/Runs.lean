import Pon.Gc.Cycle
import Pon.Gc.Machine

/-!
# The invariant of all runs

`Machine.Inv` collects what holds in every state of a run, and `Step.inv` shows that every step keeps
it. Part of it is about memory: the heap and the detached blocks occupy disjoint regions, and slots
from the watermark on have never been handed out. The other part is the finalizer protocol.
-/

namespace Pon.Gc

/-- Starts of the blocks of a frame that are rooted until it ends. -/
def Frame.starts (frame : Frame) : List ℕ :=
  frame.pending.map PendingFinalizer.start

/-- An entry of a frame was dead, old and not finalized when its cycle was started. -/
def Frame.Dead (frame : Frame) (entry : PendingFinalizer) : Prop :=
  ∃ location block, frame.before.heap.blockAt location = some block ∧ block.start = entry.start ∧
    ¬ frame.before.Reaches frame.roots location ∧ block.young = false ∧ block.finalized = false

/-- What holds of a run's frames and log and of the memory of the heap. -/
structure Machine.Inv (m : Machine) : Prop where
  sound : m.world.Sound
  held_disjoint : m.held.Pairwise DisjointRegions
  handed_held : ∀ address, handedOut m.log address → ∃ region ∈ m.held, InRegion region address
  handed_below : ∀ address, handedOut m.log address → ∀ index span,
    m.world.heap.span? index = some span → InRegion (span.base, spanBytes) address →
      address < span.base + span.zeroedWatermark * span.elemSize
  rooted : m.world.heap.pendingFinalizerRoots.Perm (m.frames.flatMap Frame.starts)
  rooted_nodup : m.world.heap.pendingFinalizerRoots.Nodup
  rooted_block : ∀ start ∈ m.world.heap.pendingFinalizerRoots, ∃ block,
    m.world.heap.Allocated block ∧ block.start = start ∧ block.finalized = true
  unfinished_pending : ∀ frame ∈ m.frames, frame.unfinished.Sublist frame.pending
  calls_le : ∀ address, calls m.log address ≤ 1
  calls_todo : ∀ frame ∈ m.frames, ∀ entry ∈ frame.todo, calls m.log entry.start = 0
  calls_unfinalized : ∀ block, m.world.heap.Allocated block → block.finalized = false →
    calls m.log block.start = 0
  dead : ∀ frame ∈ m.frames, ∀ entry ∈ frame.pending, frame.Dead entry

/-! ## Blocks and memory -/

variable {s : HeapState} {block : Block} {address index typeId size fresh start : ℕ} {w : World}
  {m : Machine} {frame : Frame} {entry : PendingFinalizer}

/-- An allocated block that contains a word of a span is the slot of the word. -/
theorem HeapState.Valid.alloc_of_contains (h : s.Valid) {span : Span}
    (spanAt : s.span? index = some span) (inSpan : InRegion (span.base, spanBytes) address)
    (allocated : s.Allocated block) (contains : block.Contains address) :
    (address - span.base) / span.elemSize < span.nelems ∧
      span.allocBits.get ((address - span.base) / span.elemSize) = true := by
  obtain ⟨location, isBlock⟩ := allocated
  cases location with
  | span other slot =>
    obtain ⟨otherSpan, otherAt, inside, alloc, rfl⟩ := HeapState.blockAt_span_eq_some.mp isBlock
    have otherValid := h.spans other otherSpan otherAt
    have valid := h.spans index span spanAt
    have base := (spanBaseOf_eq_iff otherValid.base_aligned).mpr
      (otherValid.contains_span inside contains)
    rw [(spanBaseOf_eq_iff valid.base_aligned).mpr inSpan] at base
    obtain rfl := h.index_of_base spanAt otherAt base
    obtain rfl := Option.some.inj (spanAt.symm.trans otherAt)
    rw [(valid.contains_iff inSpan.1).mp contains]
    exact ⟨inside, alloc⟩
  | large other =>
    obtain ⟨object, objectAt, rfl⟩ := HeapState.blockAt_large_eq_some.mp isBlock
    have disjoint := h.large_span_disjoint spanAt (List.mem_of_getElem? objectAt)
    simp only [DisjointRegions, InRegion, Block.Contains, LargeObject.block] at disjoint inSpan contains
    omega

/-- An address inside a block and inside a span lies below the watermark of the span. -/
theorem HeapState.Valid.below_watermark (h : s.Valid) (hblock : s.Allocated block)
    (hcontains : block.Contains address) {span : Span} (hspan : s.span? index = some span)
    (hin : InRegion (span.base, spanBytes) address) :
    address < span.base + span.zeroedWatermark * span.elemSize := by
  have hvalid := h.spans index span hspan
  have hwatermark := hvalid.watermark _ (h.alloc_of_contains hspan hin hblock hcontains).2
  rw [Nat.div_lt_iff_lt_mul hvalid.elemSize_pos] at hwatermark
  have hlow := hin.1
  omega

/-- Allocated blocks are known by their start. -/
theorem HeapState.Valid.allocated_unique (h : s.Valid) {block' : Block} (hblock : s.Allocated block)
    (hblock' : s.Allocated block') (hstart : block.start = block'.start) :
    block = block' := by
  obtain ⟨location, hblock⟩ := hblock
  obtain ⟨location', hblock'⟩ := hblock'
  have hlocation := h.location_unique hblock hblock' (h.block_contains_start hblock)
    (hstart ▸ h.block_contains_start hblock')
  rw [hlocation, hblock'] at hblock
  exact (Option.some.inj hblock).symm

variable {info : GcTypeInfo} {heap : HeapState} {rounds : ℕ} {roots rest : List ℕ}
  {location : ObjectLocation} {log : List Event}

theorem World.Sound.registerType (h : w.Sound)
    (hregister : w.heap.registerType typeId info = some heap) :
    World.Sound { w with heap } ∧ (∀ location, heap.blockAt location = w.heap.blockAt location) ∧
      heap.pendingFinalizerRoots = w.heap.pendingFinalizerRoots ∧ heap.regions = w.heap.regions ∧
      ∀ index, heap.span? index = w.heap.span? index := by
  unfold HeapState.registerType at hregister
  split at hregister
  · rename_i hlt
    cases hregister
    have hvalid := h.valid
    have hquiet := h.quiet
    refine ⟨⟨{ hvalid with types_length := ?_ }, { hquiet with }, h.zeroed⟩, fun _ ↦ rfl, rfl, rfl, fun _ ↦ rfl⟩
    have := hvalid.types_length
    simp only [List.length_set, List.length_append, List.length_replicate]
    omega
  · cases hregister

/-- The mutator does not touch slots that have not been handed out. -/
theorem Machine.Inv.write (h : m.Inv) {mem : Memory} (hwrite : m.MayWrite mem) :
    World.Sound { m.world with mem } := by
  refine ⟨h.sound.valid, h.sound.quiet, ?_⟩
  intro index span hspan address hlow hhigh
  have hin : InRegion (span.base, spanBytes) address := ⟨le_trans (Nat.le_add_right _ _) hlow, hhigh⟩
  have hold := h.sound.zeroed index span hspan address hlow hhigh
  by_contra hchanged
  have hne : mem address ≠ m.world.mem address := by
    rw [hold]
    exact hchanged
  rcases hwrite address hne with ⟨block, hblock, hcontains⟩ | houtside
  · have := h.sound.valid.below_watermark hblock hcontains hspan hin
    omega
  · exact houtside _ (List.mem_append_left _ (HeapState.span_region_mem hspan)) hin

theorem Machine.Fresh.forHeap (h : m.Fresh (requestLayout size) fresh) :
    FreshFor m.world.heap size fresh :=
  ⟨h.pos, h.aligned, fun region hmem ↦ h.disjoint region (List.mem_append_left _ hmem)⟩

theorem HeapState.Valid.exists_region (h : s.Valid) (hblock : s.Allocated block)
    (hcontains : block.Contains address) :
    ∃ region ∈ s.regions, InRegion region address := by
  obtain ⟨location, hblock⟩ := hblock
  cases location with
  | large i =>
    obtain ⟨object, hobject, rfl⟩ := HeapState.blockAt_large_eq_some.mp hblock
    exact ⟨_, HeapState.large_region_mem (List.mem_of_getElem? hobject), hcontains⟩
  | span i slot =>
    obtain ⟨span, hspan, hslot, _, rfl⟩ := HeapState.blockAt_span_eq_some.mp hblock
    exact ⟨_, HeapState.span_region_mem hspan, (h.spans i span hspan).contains_span hslot hcontains⟩

/-! ## Allocation -/

section Allocates

variable {size typeId fresh : ℕ} {w w' : World} {location : ObjectLocation} {block : Block}

theorem Allocates.allocated_iff (h : Allocates size typeId fresh w w' location block) (other : Block) :
    w'.heap.Allocated other ↔ other = block ∨ w.heap.Allocated other := by
  constructor
  · rintro ⟨l, hl⟩
    rw [h.blocks] at hl
    split at hl
    · exact Or.inl (Option.some.inj hl).symm
    · exact Or.inr ⟨l, hl⟩
  · rintro (rfl | ⟨l, hl⟩)
    · exact ⟨location, by rw [h.blocks, if_pos rfl]⟩
    · refine ⟨l, ?_⟩
      rw [h.blocks, if_neg, hl]
      rintro rfl
      rw [h.unused] at hl
      cases hl

variable {other : Block}

variable (h : Allocates size typeId fresh w w' location block) (hother : w.heap.Allocated other)
include h hother

/-- The new block shares no address with another one. -/
theorem Allocates.disjoint (hcontains : other.Contains address) :
    ¬ block.Contains address := by
  obtain ⟨l, hl⟩ := hother
  intro hcontains'
  have hne : l ≠ location := by
    rintro rfl
    rw [h.unused] at hl
    cases hl
  have hnew : w'.heap.blockAt location = some block := by rw [h.blocks, if_pos rfl]
  have hold : w'.heap.blockAt l = some other := by rw [h.blocks, if_neg hne, hl]
  exact hne (h.sound.valid.location_unique hold hnew hcontains hcontains')

theorem Allocates.start_ne : block.start ≠ other.start := by
  obtain ⟨l, hl⟩ := (h.allocated_iff other).mpr (Or.inr hother)
  obtain ⟨l', hl'⟩ := (h.allocated_iff block).mpr (Or.inl rfl)
  intro hstart
  apply h.disjoint hother (h.sound.valid.block_contains_start hl)
  rw [← hstart]
  exact h.sound.valid.block_contains_start hl'

end Allocates

/-- A step that returns an allocation has made a block. -/
theorem World.Sound.alloc_some {w' : World} (h : w.Sound) (hfresh : FreshFor w.heap size fresh)
    (halloc : w.alloc rounds size typeId fresh = some (w', start)) :
    ∃ location block, block.start = start ∧ Allocates size typeId fresh w w' location block := by
  cases hinfo : w.heap.typeInfo typeId with
  | none => simp [World.alloc, hinfo] at halloc
  | some info =>
    obtain ⟨w'', location, block, hallocates, _, hunique⟩ := h.alloc hinfo hfresh
    have heq := hunique rounds _ halloc
    cases heq
    exact ⟨location, block, rfl, hallocates⟩

theorem Machine.Inv.alloc (h : m.Inv) (hfresh : m.Fresh (requestLayout size) fresh)
    (halloc : m.world.alloc rounds size typeId fresh = some (w, start)) :
    ({ m with world := w, log := .alloc start :: m.log } : Machine).Inv := by
  obtain ⟨location, block, rfl, hallocates⟩ := h.sound.alloc_some hfresh.forHeap halloc
  have hnew : w.heap.Allocated block := (hallocates.allocated_iff block).mpr (Or.inl rfl)
  have hold : ∀ other, m.world.heap.Allocated other → w.heap.Allocated other := fun other hother ↦
    (hallocates.allocated_iff other).mpr (Or.inr hother)
  have hheld : (w.heap.regions ++ m.frames.flatMap Frame.detached).Perm m.held ∨
      (w.heap.regions ++ m.frames.flatMap Frame.detached).Perm
        ((fresh, (requestLayout size).1) :: m.held) := by
    rcases hallocates.regions with hperm | hperm
    · exact Or.inl (hperm.append_right _)
    · exact Or.inr (hperm.append_right _)
  have hcontains : block.Contains block.start := by
    obtain ⟨l, hl⟩ := hnew
    exact hallocates.sound.valid.block_contains_start hl
  refine
    { h with
      sound := hallocates.sound
      held_disjoint := ?_
      handed_held := ?_
      handed_below := ?_
      rooted := by simpa only [hallocates.pending] using h.rooted
      rooted_nodup := by simpa only [hallocates.pending] using h.rooted_nodup
      rooted_block := ?_
      calls_le := ?_
      calls_todo := ?_
      calls_unfinalized := ?_ }
  · rcases hheld with hperm | hperm
    · exact (hperm.pairwise_iff fun h ↦ h.symm).mpr h.held_disjoint
    · apply (hperm.pairwise_iff fun h ↦ h.symm).mpr
      exact List.pairwise_cons.mpr ⟨hfresh.disjoint, h.held_disjoint⟩
  · intro address hhanded
    rcases hhanded with rfl | hhanded
    · obtain ⟨region, hregion, hin⟩ := hallocates.sound.valid.exists_region hnew hcontains
      exact ⟨region, List.mem_append_left _ hregion, hin⟩
    · obtain ⟨region, hregion, hin⟩ := h.handed_held address hhanded
      refine ⟨region, ?_, hin⟩
      rcases hheld with hperm | hperm
      · exact hperm.mem_iff.mpr hregion
      · exact hperm.mem_iff.mpr (List.mem_cons_of_mem _ hregion)
  · intro address hhanded index span hspan hin
    rcases hhanded with rfl | hhanded
    · exact hallocates.sound.valid.below_watermark hnew hcontains hspan hin
    · rcases hallocates.spans index span hspan with ⟨hsize, hbase⟩ |
        ⟨old, hspan', hbase, helem, hwatermark⟩
      · -- Nothing has been handed out in memory that has just been obtained.
        obtain ⟨region, hregion, hin'⟩ := h.handed_held address hhanded
        have hdisjoint := hfresh.disjoint region hregion
        simp only [requestLayout, hsize, if_true, DisjointRegions, InRegion, hbase] at hdisjoint hin hin'
        omega
      · have hbelow := h.handed_below address hhanded index old hspan' (hbase ▸ hin)
        have hmul := Nat.mul_le_mul_right span.elemSize hwatermark
        rw [hbase, helem] at hbelow
        omega
  · intro start hstart
    rw [hallocates.pending] at hstart
    obtain ⟨other, hother, heq, hfinalized⟩ := h.rooted_block start hstart
    exact ⟨other, hold other hother, heq, hfinalized⟩
  · intro address
    have := h.calls_le address
    simp only [calls]
    split <;> omega
  · intro frame hframe entry hentry
    have := h.calls_todo frame hframe entry hentry
    simp only [calls]
    split <;> omega
  · intro other hother hfinalized
    simp only [calls]
    rcases (hallocates.allocated_iff other).mp hother with rfl | hother
    · rw [if_pos rfl]
    · rw [if_neg (hallocates.start_ne hother)]
      exact h.calls_unfinalized other hother hfinalized

/-! ## Collections -/

/-- What the roots lead to survives a collection, up to its age and its finalized flag. -/
theorem Collected.survives {cycle : CycleResult} (h : Collected w roots cycle)
    (hblock : w.heap.blockAt location = some block)
    (hreach : w.Reaches (roots ++ w.heap.pendingFinalizerRoots ++
      cycle.pending.map PendingFinalizer.start) location) :
    cycle.heap.Allocated
      { block.finalizeIf (decide (block.start ∈ cycle.pending.map PendingFinalizer.start)) with
        young := false } :=
  (h.allocated _).mpr ⟨location, block, hblock, Or.inl hreach, rfl⟩

theorem World.Sound.reaches_start (h : w.Sound) (hblock : w.heap.blockAt location = some block)
    (hroot : block.start ∈ roots) :
    w.Reaches roots location :=
  .root hroot (h.valid.classifyPointer_eq_some.mpr ⟨block, hblock, h.valid.block_contains_start hblock⟩)

theorem Machine.Inv.collect (h : m.Inv) (roots : List ℕ) : (m.collect roots).Inv := by
  have hcollected := h.sound.collectLocked roots
  unfold Machine.collect
  generalize m.world.heap.collectLocked m.world.mem roots = cycle at *
  simp only
  have hpending : ∀ entry ∈ cycle.pending, ∃ block, m.world.heap.Allocated block ∧
      block.start = entry.start ∧ block.finalized = false := by
    intro entry hentry
    obtain ⟨block, hblock, hstart, _, _, hfinalized, _⟩ := (hcollected.pending_iff entry).mp hentry
    exact ⟨block, ⟨_, hblock⟩, hstart.symm, hfinalized⟩
  have hheld : (cycle.heap.regions ++ (cycle.detached ++ m.frames.flatMap Frame.detached)).Perm
      m.held := by
    rw [← List.append_assoc]
    exact hcollected.regions.append_right _
  refine
    { sound := hcollected.sound
      held_disjoint := (hheld.pairwise_iff fun h ↦ h.symm).mpr h.held_disjoint
      handed_held := ?_
      handed_below := ?_
      rooted := ?_
      rooted_nodup := ?_
      rooted_block := ?_
      unfinished_pending := ?_
      calls_le := h.calls_le
      calls_todo := ?_
      calls_unfinalized := ?_
      dead := ?_ }
  · intro address hhanded
    obtain ⟨region, hregion, hin⟩ := h.handed_held address hhanded
    exact ⟨region, hheld.mem_iff.mpr hregion, hin⟩
  · intro address hhanded index span' hspan' hin
    obtain ⟨span, hspan, hbase, helem, hwatermark⟩ := hcollected.kept index span' hspan'
    have hbelow := h.handed_below address hhanded index span hspan (hbase ▸ hin)
    rwa [hbase, helem, hwatermark] at hbelow
  · rw [hcollected.pendingRoots]
    exact (h.rooted.append_right _).trans List.perm_append_comm
  · rw [hcollected.pendingRoots, List.nodup_append]
    refine ⟨h.rooted_nodup, hcollected.pending_nodup, ?_⟩
    rintro start hstart _ hstart' rfl
    obtain ⟨entry, hentry, hentryStart⟩ := List.mem_map.mp hstart'
    obtain ⟨block, hblock, heq, hfinalized⟩ := h.rooted_block start hstart
    obtain ⟨block', hblock', heq', hfinalized'⟩ := hpending entry hentry
    have hsame := h.sound.valid.allocated_unique hblock hblock'
      (heq.trans (hentryStart.symm.trans heq'.symm))
    rw [hsame, hfinalized'] at hfinalized
    cases hfinalized
  · intro start hstart
    rw [hcollected.pendingRoots] at hstart
    have hblock : ∃ location block, m.world.heap.blockAt location = some block ∧ block.start = start ∧
        (block.finalized || decide (block.start ∈ cycle.pending.map PendingFinalizer.start)) = true := by
      rcases List.mem_append.mp hstart with hold | hnew
      · obtain ⟨block, ⟨location, hblock⟩, heq, hfinalized⟩ := h.rooted_block start hold
        exact ⟨location, block, hblock, heq, by simp [hfinalized]⟩
      · obtain ⟨entry, hentry, hentryStart⟩ := List.mem_map.mp hnew
        obtain ⟨block, ⟨location, hblock⟩, heq, _⟩ := hpending entry hentry
        have hstart' := heq.trans hentryStart
        exact ⟨location, block, hblock, hstart', by simp [hstart', hnew]⟩
    obtain ⟨location, block, hblock, rfl, hfinalized⟩ := hblock
    refine ⟨_, hcollected.survives hblock (h.sound.reaches_start hblock ?_), rfl, hfinalized⟩
    rw [List.append_assoc]
    exact List.mem_append_right _ hstart
  · intro frame hframe
    rcases List.mem_cons.mp hframe with rfl | hold
    · exact List.Sublist.refl _
    · exact h.unfinished_pending frame hold
  · intro frame hframe entry hentry
    rcases List.mem_cons.mp hframe with rfl | hold
    · obtain ⟨block, hblock, heq, hfinalized⟩ := hpending entry hentry
      exact heq ▸ h.calls_unfinalized block hblock hfinalized
    · exact h.calls_todo frame hold entry hentry
  · intro block' hblock' hfinalized'
    obtain ⟨location, block, hblock, _, rfl⟩ := (hcollected.allocated block').mp hblock'
    have hfinalized : block.finalized = false := by
      simp only [Block.finalizeIf, Bool.or_eq_false_iff] at hfinalized'
      exact hfinalized'.1
    exact h.calls_unfinalized block ⟨location, hblock⟩ hfinalized
  · intro frame hframe entry hentry
    rcases List.mem_cons.mp hframe with rfl | hold
    · obtain ⟨block, hblock, hstart, hreach, hyoung, hfinalized, _⟩ :=
        (hcollected.pending_iff entry).mp hentry
      refine ⟨entry.location, block, hblock, hstart.symm, fun hroot ↦ hreach ?_, hyoung, hfinalized⟩
      exact hroot.mono fun p hp ↦ List.mem_append_left _ hp
    · exact h.dead frame hold entry hentry

/-! ## Finalizer calls -/

/-- A list around one of its elements. -/
theorem exists_split {α : Type*} {l : List α} {a : α} (h : l[index]? = some a) :
    ∃ front back, l = front ++ a :: back ∧ (∀ b, l.set index b = front ++ b :: back) ∧
      l.eraseIdx index = front ++ back := by
  obtain ⟨hlt, rfl⟩ := List.getElem?_eq_some_iff.mp h
  refine ⟨l.take index, l.drop (index + 1), ?_, fun b ↦ ?_, ?_⟩
  · rw [List.getElem_cons_drop, List.take_append_drop]
  · rw [List.set_eq_take_append_cons_drop, if_pos hlt]
  · rw [List.eraseIdx_eq_take_drop_succ]

theorem Machine.Inv.starts_nodup (h : m.Inv) : (m.frames.flatMap Frame.starts).Nodup :=
  h.rooted.nodup_iff.mp h.rooted_nodup

theorem Machine.Inv.mem_rooted (h : m.Inv) (hframe : frame ∈ m.frames)
    (hentry : entry ∈ frame.pending) :
    entry.start ∈ m.world.heap.pendingFinalizerRoots := by
  rw [h.rooted.mem_iff, List.mem_flatMap]
  exact ⟨frame, hframe, List.mem_map_of_mem hentry⟩

section

variable (h : m.Inv) (hframe : m.frames[index]? = some frame)
include h hframe

/-- A step that only advances the entries of one frame. -/
theorem Machine.Inv.updateFrame {frame' : Frame}
    (hsame : frame' = { frame with todo := frame'.todo, running := frame'.running })
    (hunfinished : frame'.unfinished.Sublist frame.unfinished)
    (hhanded : ∀ address, handedOut log address → handedOut m.log address)
    (hle : ∀ address, calls log address ≤ 1)
    (htodo : ∀ other ∈ m.frames.set index frame', ∀ entry ∈ other.todo, calls log entry.start = 0)
    (hunfinalized : ∀ block, m.world.heap.Allocated block → block.finalized = false →
      calls log block.start = 0) :
    ({ m with frames := m.frames.set index frame', log } : Machine).Inv := by
  obtain ⟨front, back, hsplit, hset, _⟩ := exists_split hframe
  have hdetached : (m.frames.set index frame').flatMap Frame.detached =
      m.frames.flatMap Frame.detached := by
    rw [hset, hsplit, List.flatMap_append, List.flatMap_append, List.flatMap_cons, List.flatMap_cons,
      hsame]
  have hstarts : (m.frames.set index frame').flatMap Frame.starts = m.frames.flatMap Frame.starts := by
    rw [hset, hsplit, List.flatMap_append, List.flatMap_append, List.flatMap_cons, List.flatMap_cons,
      hsame]
    rfl
  have hheld : ({ m with frames := m.frames.set index frame', log } : Machine).held = m.held := by
    simp only [Machine.held, hdetached]
  have hmem : ∀ other ∈ m.frames.set index frame', other = frame' ∨ other ∈ m.frames := by
    intro other hother
    rw [hset] at hother
    rw [hsplit]
    simp only [List.mem_append, List.mem_cons] at hother ⊢
    tauto
  have hframeMem : frame ∈ m.frames := List.mem_of_getElem? hframe
  refine
    { h with
      held_disjoint := by rw [hheld]; exact h.held_disjoint
      handed_held := ?_
      handed_below := fun address hlog ↦ h.handed_below address (hhanded address hlog)
      rooted := by simpa only [hstarts] using h.rooted
      unfinished_pending := ?_
      calls_le := hle
      calls_todo := htodo
      calls_unfinalized := hunfinalized
      dead := ?_ }
  · intro address hlog
    rw [hheld]
    exact h.handed_held address (hhanded address hlog)
  · intro other hother
    rcases hmem other hother with rfl | hold
    · rw [hsame]
      exact (hsame ▸ hunfinished).trans (h.unfinished_pending frame hframeMem)
    · exact h.unfinished_pending other hold
  · intro other hother entry hentry
    rcases hmem other hother with rfl | hold
    · rw [hsame] at hentry ⊢
      exact h.dead frame hframeMem entry hentry
    · exact h.dead other hold entry hentry

theorem Machine.Inv.callFinalizer {rest : List PendingFinalizer}
    (hrunning : frame.running = none)
    (htodo : frame.todo = entry :: rest) :
    ({ m with
        frames := m.frames.set index { frame with running := some entry, todo := rest }
        log := .call entry.start :: m.log } : Machine).Inv := by
  obtain ⟨front, back, hsplit, hset, _⟩ := exists_split hframe
  have hmem : frame ∈ m.frames := List.mem_of_getElem? hframe
  have hsublist := h.unfinished_pending frame hmem
  have hunfinished : frame.unfinished = entry :: rest := by simp [Frame.unfinished, hrunning, htodo]
  have hentry : entry ∈ frame.pending := hsublist.subset (by simp [hunfinished])
  have huncalled : calls m.log entry.start = 0 := h.calls_todo frame hmem entry (by simp [htodo])
  have hcalls : ∀ start, start ≠ entry.start → calls m.log start = 0 →
      calls (.call entry.start :: m.log) start = 0 := by
    intro start hne hzero
    simp [calls, hzero, Ne.symm hne]
  -- The other entries that are still to be called have other starts.
  have hdistinct : ∀ other ∈ m.frames.set index { frame with running := some entry, todo := rest },
      ∀ e ∈ other.todo, e.start ≠ entry.start ∧ ∃ f ∈ m.frames, e ∈ f.todo := by
    have hnodup := h.starts_nodup
    rw [hsplit, List.flatMap_append, List.flatMap_cons, List.nodup_append, List.nodup_append] at hnodup
    obtain ⟨_, ⟨hself, _, hback⟩, hfront⟩ := hnodup
    have hstart : entry.start ∈ frame.starts := List.mem_map_of_mem hentry
    have hstarts : ∀ f ∈ m.frames, ∀ e ∈ f.todo, e.start ∈ f.starts := by
      intro f hf e he
      apply List.mem_map_of_mem
      exact (h.unfinished_pending f hf).subset (List.mem_append_right _ he)
    have hrest : entry.start ∉ rest.map PendingFinalizer.start := by
      have hsub := hsublist.map PendingFinalizer.start
      rw [hunfinished, List.map_cons] at hsub
      exact (List.nodup_cons.mp (hself.sublist hsub)).1
    intro other hother e he
    rw [hset] at hother
    rcases List.mem_append.mp hother with hin | hin
    · have hold : other ∈ m.frames := by simp [hsplit, hin]
      refine ⟨hfront _ (List.mem_flatMap.mpr ⟨other, hin, hstarts other hold e he⟩) _ ?_, other, hold, he⟩
      exact List.mem_append_left _ hstart
    · rcases List.mem_cons.mp hin with rfl | hin
      · refine ⟨fun heq ↦ hrest (heq ▸ List.mem_map_of_mem he), frame, hmem, ?_⟩
        rw [htodo]
        exact List.mem_cons_of_mem _ he
      · have hold : other ∈ m.frames := by simp [hsplit, hin]
        refine ⟨?_, other, hold, he⟩
        exact (hback _ hstart _ (List.mem_flatMap.mpr ⟨other, hin, hstarts other hold e he⟩)).symm
  apply h.updateFrame hframe
  · rfl
  · rw [hunfinished]
    exact List.Sublist.refl _
  · exact fun address hlog ↦ hlog
  · intro address
    by_cases hstart : address = entry.start
    · simp [calls, hstart, huncalled]
    · simpa [calls, Ne.symm hstart] using h.calls_le address
  · intro other hother e he
    obtain ⟨hne, f, hf, hef⟩ := hdistinct other hother e he
    exact hcalls e.start hne (h.calls_todo f hf e hef)
  · intro block hblock hfinalized
    apply hcalls _ _ (h.calls_unfinalized block hblock hfinalized)
    intro heq
    obtain ⟨block', hblock', heq', hfinalized'⟩ := h.rooted_block _ (h.mem_rooted hmem hentry)
    have hsame := h.sound.valid.allocated_unique hblock hblock' (heq.trans heq'.symm)
    rw [← hsame, hfinalized] at hfinalized'
    cases hfinalized'

theorem Machine.Inv.returnFinalizer (hrunning : frame.running = some entry) :
    ({ m with
        frames := m.frames.set index { frame with running := none }
        log := .ret entry.start :: m.log } : Machine).Inv := by
  obtain ⟨front, back, hsplit, hset, _⟩ := exists_split hframe
  apply h.updateFrame hframe
  · rfl
  · simp [Frame.unfinished, hrunning]
  · exact fun address hlog ↦ hlog
  · exact h.calls_le
  · intro other hother e he
    have hold : ∃ f ∈ m.frames, e ∈ f.todo := by
      rw [hset] at hother
      rcases List.mem_append.mp hother with hin | hin
      · exact ⟨other, by simp [hsplit, hin], he⟩
      · rcases List.mem_cons.mp hin with rfl | hin
        · exact ⟨frame, List.mem_of_getElem? hframe, he⟩
        · exact ⟨other, by simp [hsplit, hin], he⟩
    obtain ⟨f, hf, hef⟩ := hold
    exact h.calls_todo f hf e hef
  · exact h.calls_unfinalized

end

/-! ## The end of a collection -/

theorem HeapState.forgetPending_perm (h : s.pendingFinalizerRoots.Perm (start :: rest)) :
    ∃ roots, s.forgetPending start = { s with pendingFinalizerRoots := roots } ∧ roots.Perm rest := by
  have hmem : start ∈ s.pendingFinalizerRoots := h.mem_iff.mpr List.mem_cons_self
  unfold HeapState.forgetPending
  cases hfind : s.pendingFinalizerRoots.findIdx? (· == start) with
  | none =>
    rw [List.findIdx?_eq_none_iff] at hfind
    simpa using hfind start hmem
  | some position =>
    obtain ⟨hlt, heq, _⟩ := List.findIdx?_eq_some_iff_getElem.mp hfind
    have hget : s.pendingFinalizerRoots[position]? = some start := by
      rw [List.getElem?_eq_getElem hlt]
      simpa using heq
    obtain ⟨front, back, hsplit, hset, _⟩ := exists_split hget
    have hlast : ∃ last, s.pendingFinalizerRoots.getLast? = some last := by
      rw [← Option.isSome_iff_exists, List.getLast?_isSome]
      exact List.ne_nil_of_mem hmem
    obtain ⟨last, hlast⟩ := hlast
    simp only [hlast]
    refine ⟨_, rfl, ?_⟩
    rw [hset]
    rw [hsplit] at h hlast
    have hrest : (front ++ back).Perm rest := by
      exact (List.perm_cons start).mp (List.perm_middle.symm.trans h)
    refine List.Perm.trans ?_ hrest
    rcases List.eq_nil_or_concat back with rfl | ⟨mid, x, rfl⟩
    · simp
    · simp only [List.concat_eq_append] at hlast ⊢
      have hx : last = x := by
        have hconcat : front ++ start :: (mid ++ [x]) = (front ++ start :: mid) ++ [x] := by simp
        rw [hconcat, List.getLast?_concat] at hlast
        exact (Option.some.inj hlast).symm
      have hdrop : (front ++ last :: (mid ++ [x])).dropLast = front ++ last :: mid := by
        have hconcat : front ++ last :: (mid ++ [x]) = (front ++ last :: mid) ++ [x] := by simp
        rw [hconcat, List.dropLast_concat]
      rw [hdrop, hx]
      exact List.Perm.append_left _ (List.perm_append_singleton _ _).symm

theorem HeapState.forgetPending_foldl {starts : List ℕ}
    (h : s.pendingFinalizerRoots.Perm (starts ++ rest)) :
    ∃ roots, starts.foldl HeapState.forgetPending s = { s with pendingFinalizerRoots := roots } ∧
      roots.Perm rest := by
  induction starts generalizing s with
  | nil => exact ⟨s.pendingFinalizerRoots, rfl, h⟩
  | cons start starts ih =>
    obtain ⟨roots, heq, hperm⟩ := HeapState.forgetPending_perm h
    rw [List.foldl_cons, heq]
    exact ih (s := { s with pendingFinalizerRoots := roots }) hperm

theorem handedOut_release {detached : List (ℕ × ℕ)}
    (h : handedOut (detached.map (fun region ↦ Event.release region.1 region.2) ++ log) address) :
    handedOut log address ∧ ∀ region ∈ detached, ¬ InRegion region address := by
  induction detached with
  | nil => exact ⟨h, fun _ hmem ↦ by cases hmem⟩
  | cons region rest ih =>
    obtain ⟨hlog, hrest⟩ := ih h.2
    refine ⟨hlog, fun other hother ↦ ?_⟩
    rcases List.mem_cons.mp hother with rfl | hin
    · exact h.1
    · exact hrest other hin

theorem calls_release (detached : List (ℕ × ℕ)) (log : List Event) (address : ℕ) :
    calls (detached.map (fun region ↦ Event.release region.1 region.2) ++ log) address =
      calls log address := by
  induction detached with
  | nil => rfl
  | cons region rest ih => exact ih

theorem Machine.Inv.finish (h : m.Inv) (hframe : m.frames[index]? = some frame) :
    (m.finish index frame).Inv := by
  obtain ⟨front, back, hsplit, _, herase⟩ := exists_split hframe
  have hrooted : m.world.heap.pendingFinalizerRoots.Perm
      (frame.starts ++ (front ++ back).flatMap Frame.starts) := by
    refine h.rooted.trans ?_
    rw [hsplit, List.flatMap_append, List.flatMap_append, List.flatMap_cons]
    exact List.perm_append_comm_assoc _ _ _
  obtain ⟨roots, heq, hperm⟩ := HeapState.forgetPending_foldl hrooted
  have hheld : m.held.Perm
      (frame.detached ++ (m.world.heap.regions ++ (front ++ back).flatMap Frame.detached)) := by
    simp only [Machine.held]
    rw [hsplit, List.flatMap_append, List.flatMap_append, List.flatMap_cons]
    exact ((List.perm_append_comm_assoc _ _ _).append_left _).trans (List.perm_append_comm_assoc _ _ _)
  have hsub : ∀ start ∈ roots, start ∈ m.world.heap.pendingFinalizerRoots := by
    intro start hstart
    exact hrooted.mem_iff.mpr (List.mem_append_right _ (hperm.mem_iff.mp hstart))
  have hmem : ∀ other ∈ front ++ back, other ∈ m.frames := by
    intro other hother
    rw [hsplit]
    simp only [List.mem_append, List.mem_cons] at hother ⊢
    tauto
  have hfinish : m.finish index frame =
      { world := { m.world with heap := { m.world.heap with pendingFinalizerRoots := roots } }
        frames := front ++ back
        log := frame.detached.map (fun region ↦ Event.release region.1 region.2) ++ m.log } := by
    unfold Machine.finish
    rw [herase, ← heq]
    rfl
  rw [hfinish]
  have hvalid := h.sound.valid
  have hquiet := h.sound.quiet
  refine
    { sound := ⟨{ hvalid with }, { hquiet with }, h.sound.zeroed⟩
      held_disjoint := ?_
      handed_held := ?_
      handed_below := fun address hhanded ↦ h.handed_below address (handedOut_release hhanded).1
      rooted := hperm
      rooted_nodup := ?_
      rooted_block := fun start hstart ↦ h.rooted_block start (hsub start hstart)
      unfinished_pending := fun other hother ↦ h.unfinished_pending other (hmem other hother)
      calls_le := fun address ↦ by rw [calls_release]; exact h.calls_le address
      calls_todo := fun other hother entry hentry ↦ by
        rw [calls_release]
        exact h.calls_todo other (hmem other hother) entry hentry
      calls_unfinalized := fun block hblock hfinalized ↦ by
        rw [calls_release]
        exact h.calls_unfinalized block hblock hfinalized
      dead := fun other hother ↦ h.dead other (hmem other hother) }
  · have hdisjoint := (hheld.pairwise_iff fun h ↦ h.symm).mp h.held_disjoint
    exact (List.pairwise_append.mp hdisjoint).2.1
  · intro address hhanded
    obtain ⟨hlog, hreleased⟩ := handedOut_release hhanded
    obtain ⟨region, hregion, hin⟩ := h.handed_held address hlog
    rcases List.mem_append.mp (hheld.mem_iff.mp hregion) with hgone | hkept
    · exact (hreleased region hgone hin).elim
    · exact ⟨region, hkept, hin⟩
  · have hnodup := hrooted.nodup_iff.mp h.rooted_nodup
    exact hperm.nodup_iff.mpr (List.nodup_append.mp hnodup).2.1

/-! ## All steps -/

theorem Machine.Inv.register (h : m.Inv)
    (hregister : m.world.heap.registerType typeId info = some heap) :
    ({ m with world.heap := heap } : Machine).Inv := by
  obtain ⟨hsound, hblocks, hpending, hregions, hspan?⟩ := h.sound.registerType hregister
  have hallocated : ∀ block, heap.Allocated block ↔ m.world.heap.Allocated block := by
    intro block
    simp only [HeapState.Allocated, hblocks]
  refine
    { h with
      sound := hsound
      held_disjoint := ?_
      handed_held := ?_
      handed_below := ?_
      rooted := by simpa only [hpending] using h.rooted
      rooted_nodup := by simpa only [hpending] using h.rooted_nodup
      rooted_block := ?_
      calls_unfinalized := fun block hblock ↦ h.calls_unfinalized block ((hallocated block).mp hblock) }
  · simpa only [Machine.held, hregions] using h.held_disjoint
  · simpa only [Machine.held, hregions] using h.handed_held
  · intro address hhanded index span hspan
    exact h.handed_below address hhanded index span (hspan? index ▸ hspan)
  · intro start hstart
    rw [hpending] at hstart
    obtain ⟨block, hblock, heq, hfinalized⟩ := h.rooted_block start hstart
    exact ⟨block, (hallocated block).mpr hblock, heq, hfinalized⟩

theorem Machine.inv_init (mem : Memory) : (Machine.init mem).Inv where
  sound := ⟨valid_new, quiet_new, fun index span hspan ↦ by
    simp [Machine.init, HeapState.new, HeapState.span?] at hspan⟩
  held_disjoint := List.Pairwise.nil
  handed_held _ h := h.elim
  handed_below _ h := h.elim
  rooted := List.Perm.refl _
  rooted_nodup := List.nodup_nil
  rooted_block _ h := by cases h
  unfinished_pending _ h := by cases h
  calls_le _ := Nat.zero_le _
  calls_todo _ h := by cases h
  calls_unfinalized _ _ _ := rfl
  dead _ h := by cases h

/-- Every step keeps the invariant. -/
theorem Step.inv {m' : Machine} {act : Act} (hstep : Step m act m') (h : m.Inv) : m'.Inv := by
  cases hstep with
  | register hregister => exact h.register hregister
  | alloc hfresh halloc => exact h.alloc hfresh halloc
  | write hwrite => exact { h with sound := h.write hwrite }
  | collect => exact h.collect _
  | callFinalizer hframe hrunning htodo => exact h.callFinalizer hframe hrunning htodo
  | returnFinalizer hframe hrunning => exact h.returnFinalizer hframe hrunning
  | finish hframe _ _ => exact h.finish hframe

/-- The invariant holds in every state of every run. -/
theorem Reached.inv (h : Reached m) : m.Inv := by
  apply Transition.Reachable.invariant Machine.Inv _ _ h
  · rintro m ⟨mem, rfl⟩
    exact Machine.inv_init mem
  · exact fun m act m' hm _ hstep ↦ hstep.inv hm

end Pon.Gc
