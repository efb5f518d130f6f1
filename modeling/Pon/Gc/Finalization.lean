import Pon.Gc.Collection

/-!
# The finalizer protocol

Finalizers run without the heap lock, between the sweep and the end of a collection, and may
allocate, write and start further collections. Each block is finalized at most once, and whatever a
queued or running finalizer can reach outlives every sweep until the finalizer has returned.
-/

namespace Pon.Gc

/-- The two blocks are the same object, possibly at different times. -/
def Block.SameObject (block block' : Block) : Prop :=
  block'.start = block.start ∧ block'.size = block.size ∧ block'.typeId = block.typeId

theorem HeapState.blockAt_forgetPending (s : HeapState) (starts : List ℕ) (location : ObjectLocation) :
    (starts.foldl HeapState.forgetPending s).blockAt location = s.blockAt location := by
  induction starts generalizing s with
  | nil => rfl
  | cons start rest ih =>
    have hfirst : (s.forgetPending start).blockAt location = s.blockAt location := by
      unfold HeapState.forgetPending
      split
      · rfl
      · dsimp only
        split <;> rfl
    exact (ih _).trans hfirst

variable {m : Machine}

/-- Steps other than collections free nothing. -/
theorem Step.allocated {m' : Machine} {act : Act} (hstep : Step m act m') (h : m.Inv)
    (hact : ∀ roots, act ≠ .collect roots) {block : Block} (hblock : m.world.heap.Allocated block) :
    m'.world.heap.Allocated block := by
  obtain ⟨location, hlocation⟩ := hblock
  cases hstep with
  | register hregister =>
    obtain ⟨_, hblocks, _⟩ := h.sound.registerType hregister
    exact ⟨location, (hblocks location).trans hlocation⟩
  | alloc hfresh halloc =>
    obtain ⟨_, _, _, hallocates⟩ := h.sound.alloc_some hfresh.forHeap halloc
    exact (hallocates.allocated_iff block).mpr (Or.inr ⟨location, hlocation⟩)
  | write _ => exact ⟨location, hlocation⟩
  | collect => exact (hact _ rfl).elim
  | callFinalizer _ _ _ => exact ⟨location, hlocation⟩
  | returnFinalizer _ _ => exact ⟨location, hlocation⟩
  | finish _ _ _ => exact ⟨location, (HeapState.blockAt_forgetPending _ _ location).trans hlocation⟩

theorem Machine.Inv.queued_rooted (h : m.Inv) {start : ℕ} (hqueued : m.Queued start) :
    start ∈ m.world.heap.pendingFinalizerRoots := by
  obtain ⟨frame, hframe, entry, hentry, rfl⟩ := hqueued
  exact h.mem_rooted hframe ((h.unfinished_pending frame hframe).subset hentry)

/-- What a queued block leads to survives the sweep of a collection, be it the collection that has
queued the block or one that was started while it was queued. -/
theorem Machine.Inv.collect_keeps (h : m.Inv) (roots : List ℕ) {start : ℕ}
    (hqueued : m.Queued start ∨ (m.collect roots).Queued start) {block : Block}
    (hreach : m.world.ReachesBlock [start] block) :
    ∃ block', (m.collect roots).world.heap.Allocated block' ∧ block.SameObject block' := by
  have hcollected := h.sound.collectLocked roots
  have hrooted : start ∈ m.world.heap.pendingFinalizerRoots ++
      (m.world.heap.collectLocked m.world.mem roots).pending.map PendingFinalizer.start := by
    rcases hqueued with hqueued | hqueued
    · exact List.mem_append_left _ (h.queued_rooted hqueued)
    · have hrooted := (h.collect roots).queued_rooted hqueued
      simpa only [Machine.collect_world, hcollected.pendingRoots] using hrooted
  obtain ⟨location, hblock, hpath⟩ := hreach
  simp only [Machine.collect_world]
  refine ⟨_, hcollected.survives hblock (hpath.mono fun p hp ↦ ?_), rfl, rfl, rfl⟩
  obtain rfl := List.mem_singleton.mp hp
  rw [List.append_assoc]
  exact List.mem_append_right _ hrooted

/-- The finalizer protocol over every run. A finalizer is called at most once between the allocation
of a block and its reuse, and only in a cycle whose roots did not reach the block. No step frees the
block or anything it leads to from when it is queued until its finalizer has returned. A new object
is not finalized. -/
theorem finalizer_protocol {m : Machine} (h : Reached m) :
    (∀ start, calls m.log start ≤ 1) ∧
    (∀ start, m.Queued start → ∃ block, m.world.heap.Allocated block ∧ block.start = start) ∧
    ∀ act m', Step m act m' →
      (∀ index, act = .callFinalizer index → ∃ frame ∈ m.frames, ∃ entry ∈ frame.pending,
        m'.log = .call entry.start :: m.log ∧ frame.Dead entry) ∧
      (∀ start, m.Queued start ∨ m'.Queued start → ∀ block, m.world.ReachesBlock [start] block →
        ∃ block', m'.world.heap.Allocated block' ∧ block.SameObject block') ∧
      ∀ size typeId fresh, act = .alloc size typeId fresh → ∃ block,
        m'.world.heap.Allocated block ∧ m'.log = .alloc block.start :: m.log ∧
          block.finalized = false := by
  have hinv := h.inv
  refine ⟨hinv.calls_le, fun start hqueued ↦ ?_, fun act m' hstep ↦ ⟨?_, ?_, ?_⟩⟩
  · obtain ⟨block, hblock, hstart, _⟩ := hinv.rooted_block start (hinv.queued_rooted hqueued)
    exact ⟨block, hblock, hstart⟩
  · rintro index rfl
    cases hstep with
    | @callFinalizer _ frame entry rest hframe hrunning htodo =>
      have hmem := List.mem_of_getElem? hframe
      have hentry : entry ∈ frame.pending :=
        (hinv.unfinished_pending frame hmem).subset (by simp [Frame.unfinished, htodo])
      exact ⟨frame, hmem, entry, hentry, rfl, hinv.dead frame hmem entry hentry⟩
  · intro start hqueued block hreach
    by_cases hcollect : ∃ roots, act = .collect roots
    · obtain ⟨roots, rfl⟩ := hcollect
      cases hstep
      exact hinv.collect_keeps roots hqueued hreach
    · obtain ⟨location, hblock, _⟩ := hreach
      have hact : ∀ roots, act ≠ .collect roots := fun roots heq ↦ hcollect ⟨roots, heq⟩
      exact ⟨block, hstep.allocated hinv hact ⟨location, hblock⟩, rfl, rfl, rfl⟩
  · rintro size typeId fresh rfl
    cases hstep with
    | alloc hfresh halloc =>
      obtain ⟨_, block, rfl, hallocates⟩ := hinv.sound.alloc_some hfresh.forHeap halloc
      exact ⟨block, (hallocates.allocated_iff block).mpr (Or.inl rfl), rfl, hallocates.not_finalized⟩

/-- The state in which a collection has queued the finalizer of the object at 4096. -/
def queuedMachine : Machine :=
  touchedMachine.collect []

theorem reached_queuedMachine : Reached queuedMachine :=
  .next (a := Act.collect []) reached_touchedMachine trivial .collect

/-- A collection that is started before the finalizer has returned keeps the object that the finalizer
can touch, although no root reaches it. -/
theorem finalizer_protocol_nested :
    queuedMachine.Queued 4096 ∧ ∃ block,
      (queuedMachine.collect []).world.heap.Allocated block ∧ (oldNode 8192 1).SameObject block := by
  have hqueued : queuedMachine.Queued 4096 :=
    ⟨queuedMachine.frames.head (List.cons_ne_nil _ _), List.head_mem _,
      { start := 4096, finalize := 1, location := .large 0 }, by decide, rfl⟩
  refine ⟨hqueued, ?_⟩
  obtain ⟨_, _, hsteps⟩ := finalizer_protocol reached_queuedMachine
  obtain ⟨_, hkeeps, _⟩ := hsteps (.collect []) _ .collect
  apply hkeeps 4096 (Or.inl hqueued)
  have hroot : queuedMachine.world.heap.classifyPointer 4096 = some (.large 0) := rfl
  have hchild : 8192 ∈ queuedMachine.world.heap.children queuedMachine.world.mem (.large 0) := by
    decide
  have hresolve : queuedMachine.world.heap.classifyPointer 8192 = some (.large 1) := rfl
  exact ⟨.large 1, rfl, .step (.root (by simp) hroot) hchild hresolve⟩

end Pon.Gc
