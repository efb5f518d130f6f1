import Pon.Gc.Finalization

/-!
# Blocks before their finalizers have returned

A block of a type with a finalizer is not freed before the finalizer has returned: it is not finalized, or
its finalizer is queued or running.
-/

namespace Pon.Gc

/-- The finalizer of the block is still to return. -/
def Machine.Unfinalized (m : Machine) (block : Block) : Prop :=
  block.finalized = false ∨ m.Queued block.start

variable {m m' : Machine} {block : Block} {act : Act} {typeId : ℕ}

/-- A frame that takes the place of another one with the same entries. -/
theorem Machine.Queued.set {index : ℕ} {frame frame' : Frame}
    (found : m.frames[index]? = some frame) {start : ℕ} (queued : m.Queued start)
    (kept : ∀ entry ∈ frame.unfinished, entry.start = start → entry ∈ frame'.unfinished)
    (log : List Event) :
    Machine.Queued { m with frames := m.frames.set index frame', log } start := by
  obtain ⟨front, back, split, set, -⟩ := exists_split found
  obtain ⟨other, member, entry, unfinished, isStart⟩ := queued
  rw [split] at member
  have moved : ∀ frame, frame ∈ front ++ frame' :: back → frame ∈ m.frames.set index frame' :=
    fun frame member ↦ set frame' ▸ member
  obtain member | member := List.mem_append.mp member
  · exact ⟨other, moved other (List.mem_append_left _ member), entry, unfinished, isStart⟩
  · obtain rfl | member := List.mem_cons.mp member
    · exact ⟨frame', moved frame' (List.mem_append_right _ List.mem_cons_self), entry,
        kept entry unfinished isStart, isStart⟩
    · exact ⟨other, moved other (List.mem_append_right _ (List.mem_cons_of_mem _ member)), entry,
        unfinished, isStart⟩

/-- A collection keeps a block with a finalizer that has not returned. -/
theorem Machine.Inv.collect_unfinalized (inv : m.Inv) (roots : List ℕ)
    (allocated : m.world.heap.Allocated block)
    (finalizer : m.world.heap.finalizerOf block.typeId ≠ none) (unfinalized : m.Unfinalized block) :
    ∃ block', (m.collect roots).world.heap.Allocated block' ∧ block.SameObject block' ∧
      (m.collect roots).Unfinalized block' := by
  have rooted : m.world.ReachesBlock [block.start] block := by
    obtain ⟨location, found⟩ := allocated
    exact ⟨location, found, inv.sound.reaches_start found List.mem_cons_self⟩
  have queuedAfter {start : ℕ} (queued : m.Queued start) : (m.collect roots).Queued start := by
    obtain ⟨frame, member, rest⟩ := queued
    exact ⟨frame, List.mem_cons_of_mem _ member, rest⟩
  have collected := inv.sound.collectLocked roots
  have keptQueued (queued : (m.collect roots).Queued block.start) :
      ∃ block', (m.collect roots).world.heap.Allocated block' ∧ block.SameObject block' ∧
        (m.collect roots).Unfinalized block' := by
    obtain ⟨block', allocated', same⟩ := inv.collect_keeps roots (Or.inr queued) rooted
    exact ⟨block', allocated', same, Or.inr (same.1.symm ▸ queued)⟩
  obtain unfinalized | queued := unfinalized
  · by_cases pending : block.start ∈
        (m.world.heap.collectLocked m.world.mem roots).pending.map PendingFinalizer.start
    · obtain ⟨entry, member, isStart⟩ := List.mem_map.mp pending
      exact keptQueued ⟨_, List.mem_cons_self, entry, member, isStart⟩
    · obtain ⟨location, found⟩ := allocated
      have survives : m.world.Reaches (roots ++ m.world.heap.pendingFinalizerRoots ++
          (m.world.heap.collectLocked m.world.mem roots).pending.map PendingFinalizer.start) location ∨
          block.young = true := by
        -- An old block that the roots do not reach is pending.
        by_contra dead
        obtain ⟨unreached, old⟩ := not_or.mp dead
        obtain ⟨finalize, isFinalize⟩ := Option.ne_none_iff_exists'.mp finalizer
        refine pending (List.mem_map.mpr ⟨⟨block.start, finalize, location⟩, ?_, rfl⟩)
        refine (collected.pending_iff _).mpr ⟨block, found, rfl, fun reached ↦ unreached ?_,
          Bool.eq_false_of_not_eq_true old, unfinalized, isFinalize⟩
        exact reached.mono fun p member ↦ List.mem_append_left _ member
      refine ⟨_, (collected.allocated _).mpr ⟨location, block, found, survives, rfl⟩, ⟨rfl, rfl, rfl⟩,
        Or.inl ?_⟩
      rw [decide_eq_false pending, Block.finalizeIf_false]
      exact unfinalized
  · exact keptQueued (queuedAfter queued)

/-- A step other than the return of its finalizer keeps a block with a finalizer that has not returned. -/
theorem Step.unfinalized (step : Step m act m') (inv : m.Inv)
    (allocated : m.world.heap.Allocated block)
    (finalizer : m.world.heap.finalizerOf block.typeId ≠ none) (unfinalized : m.Unfinalized block)
    (other : ∀ index frame entry, act = .returnFinalizer index → m.frames[index]? = some frame →
      frame.running = some entry → entry.start ≠ block.start) :
    ∃ block', m'.world.heap.Allocated block' ∧ block.SameObject block' ∧ m'.Unfinalized block' := by
  have same : block.SameObject block := ⟨rfl, rfl, rfl⟩
  by_cases isCollect : ∃ roots, act = .collect roots
  · obtain ⟨roots, rfl⟩ := isCollect
    cases step
    exact inv.collect_unfinalized roots allocated finalizer unfinalized
  · refine ⟨block, step.allocated inv (fun roots isAct ↦ isCollect ⟨roots, isAct⟩) allocated, same, ?_⟩
    refine unfinalized.imp_right fun queued ↦ ?_
    cases step with
    | register | alloc | write => exact queued
    | collect => exact absurd ⟨_, rfl⟩ isCollect
    | @callFinalizer index frame entry rest found idle isTodo =>
      refine queued.set found (fun other member _ ↦ ?_) _
      rw [Frame.unfinished, idle, isTodo] at member
      exact member
    | @returnFinalizer index frame entry found running =>
      refine queued.set found (fun candidate member isStart ↦ ?_) _
      rw [Frame.unfinished, running] at member
      obtain rfl | member := List.mem_cons.mp member
      · exact absurd isStart (other index frame candidate rfl found running)
      · exact member
    | @finish index frame found idle isTodo =>
      obtain ⟨front, back, split, -, erased⟩ := exists_split found
      obtain ⟨candidate, member, entry, unfinished, isStart⟩ := queued
      have empty : frame.unfinished = [] := by
        rw [Frame.unfinished, idle, isTodo]
        rfl
      refine ⟨candidate, ?_, entry, unfinished, isStart⟩
      change candidate ∈ m.frames.eraseIdx index
      rw [erased]
      rw [split] at member
      obtain member | member := List.mem_append.mp member
      · exact List.mem_append_left _ member
      · obtain rfl | member := List.mem_cons.mp member
        · rw [empty] at unfinished
          exact absurd unfinished List.not_mem_nil
        · exact List.mem_append_right _ member

/-- The finalizers that are queued or running for blocks of the type are all the same one. -/
def Machine.FinalizesWith (m : Machine) (typeId finalize : ℕ) : Prop :=
  ∀ frame ∈ m.frames, ∀ entry ∈ frame.unfinished, ∀ block, m.world.heap.Allocated block →
    block.start = entry.start → block.typeId = typeId → entry.finalize = finalize

theorem Step.sameObject_of_queued (step : Step m act m') (reached : Reached m) {start : ℕ}
    (queued : m.Queued start) {block' : Block} (allocated' : m'.world.heap.Allocated block')
    (isStart : block'.start = start) :
    ∃ block, m.world.heap.Allocated block ∧ block.SameObject block' := by
  obtain ⟨-, exists_block, steps⟩ := finalizer_protocol reached
  obtain ⟨block, allocated, isStart'⟩ := exists_block start queued
  obtain ⟨-, keeps, -⟩ := steps act m' step
  have rooted : m.world.ReachesBlock [start] block := by
    obtain ⟨location, found⟩ := allocated
    exact ⟨location, found, reached.inv.sound.reaches_start found (isStart' ▸ List.mem_cons_self)⟩
  obtain ⟨block'', allocated'', same⟩ := keeps start (Or.inl queued) block rooted
  have unique : block' = block'' :=
    (step.inv reached.inv).sound.valid.allocated_unique allocated' allocated''
      (isStart.trans (isStart'.symm.trans same.1.symm))
  exact ⟨block, allocated, unique ▸ same⟩

theorem Step.finalizesWith (step : Step m act m') (reached : Reached m) {finalize : ℕ}
    (isFinalize : m.world.heap.finalizerOf typeId = some finalize)
    (before : m.FinalizesWith typeId finalize) : m'.FinalizesWith typeId finalize := by
  have old {frame : Frame} (member : frame ∈ m.frames) {entry : PendingFinalizer}
      (unfinished : entry ∈ frame.unfinished) {block' : Block}
      (allocated' : m'.world.heap.Allocated block') (isStart : block'.start = entry.start)
      (isType : block'.typeId = typeId) : entry.finalize = finalize := by
    obtain ⟨block, allocated, sameStart, -, sameType⟩ :=
      step.sameObject_of_queued reached ⟨frame, member, entry, unfinished, rfl⟩ allocated' isStart
    exact before frame member entry unfinished block allocated (sameStart.symm.trans isStart)
      (sameType.symm.trans isType)
  intro frame member entry unfinished block' allocated' isStart isType
  -- The entries of another frame were there before, and those of a changed one were in it.
  have changed {index : ℕ} {frame₀ frame' : Frame} (found : m.frames[index]? = some frame₀)
      (smaller : ∀ entry ∈ frame'.unfinished, entry ∈ frame₀.unfinished)
      (member : frame ∈ m.frames.set index frame') : entry.finalize = finalize := by
    obtain member | rfl := List.mem_or_eq_of_mem_set member
    · exact old member unfinished allocated' isStart isType
    · exact old (List.mem_of_getElem? found) (smaller entry unfinished) allocated' isStart isType
  cases step with
  | register | alloc | write => exact old member unfinished allocated' isStart isType
  | @collect roots =>
    obtain rfl | member := List.mem_cons.mp member
    · have collected := reached.inv.sound.collectLocked roots
      obtain ⟨block, found, startEq, -, -, -, isEntry⟩ := (collected.pending_iff entry).mp unfinished
      obtain ⟨location', block₁, found₁, -, rfl⟩ := (collected.allocated block').mp allocated'
      have same : block₁ = block := reached.inv.sound.valid.allocated_unique ⟨_, found₁⟩ ⟨_, found⟩
        (isStart.trans startEq)
      have typeEq : block.typeId = typeId := same ▸ isType
      rw [typeEq, isFinalize] at isEntry
      exact (Option.some.inj isEntry).symm
    · exact old member unfinished allocated' isStart isType
  | callFinalizer found idle isTodo =>
    refine changed found (fun entry member ↦ ?_) member
    rw [Frame.unfinished, idle, isTodo]
    exact member
  | returnFinalizer found running =>
    refine changed found (fun entry member ↦ ?_) member
    exact List.mem_append_right _ member
  | finish =>
    exact old ((List.eraseIdx_sublist _ _).subset member) unfinished allocated' isStart isType

/-- The start of a block is not NULL. -/
theorem HeapState.Valid.start_pos {s : HeapState} (valid : s.Valid) {location : ObjectLocation}
    (found : s.blockAt location = some block) : 0 < block.start := by
  cases location with
  | span index slot =>
    obtain ⟨span, isSpan, -, -, rfl⟩ := HeapState.blockAt_span_eq_some.mp found
    exact Nat.add_pos_left (valid.spans index span isSpan).base_pos _
  | large index =>
    obtain ⟨object, isObject, rfl⟩ := Option.map_eq_some_iff.mp found
    exact (valid.large_pos object (List.mem_of_getElem? isObject)).1

theorem HeapState.typeInfo_registerType {s heap : HeapState} {info : GcTypeInfo}
    (registered : s.registerType typeId info = some heap) (other : ℕ) :
    heap.typeInfo other = if other = typeId then some info else s.typeInfo other := by
  unfold HeapState.registerType at registered
  split at registered
  · cases registered
    unfold HeapState.typeInfo
    dsimp only
    split_ifs with same
    · subst same
      rw [List.getElem?_set_self]
      · rfl
      · rw [List.length_append, List.length_replicate]
        omega
    · rw [List.getElem?_set_ne (Ne.symm same)]
      by_cases inside : other < s.types.length
      · rw [List.getElem?_append_left inside]
      · rw [List.getElem?_append_right (not_lt.mp inside), List.getElem?_eq_none (not_lt.mp inside)]
        cases found : (List.replicate (typeId + 1 - s.types.length) (none : Option GcTypeInfo))[other -
            s.types.length]? with
        | none => rfl
        | some entry =>
          obtain rfl := List.eq_of_mem_replicate (List.mem_of_getElem? found)
          rfl
  · cases registered

theorem Step.typeInfo (step : Step m act m') (inv : m.Inv)
    (other : ∀ info, act ≠ .register typeId info) :
    m'.world.heap.typeInfo typeId = m.world.heap.typeInfo typeId := by
  cases step with
  | @register typeId' info heap registered =>
    have apart : typeId ≠ typeId' := fun same ↦ other info (same ▸ rfl)
    exact (HeapState.typeInfo_registerType registered typeId).trans (if_neg apart)
  | alloc fresh alloc =>
    obtain ⟨_, _, _, allocates⟩ := inv.sound.alloc_some fresh.forHeap alloc
    exact congrArg (fun types ↦ (types[typeId]?).join) allocates.types
  | write | callFinalizer | returnFinalizer => rfl
  | collect =>
    exact congrArg (fun types ↦ (types[typeId]?).join) (inv.sound.collectLocked _).types
  | @finish index frame found idle isTodo =>
    have forget (starts : List ℕ) (s : HeapState) :
        (starts.foldl HeapState.forgetPending s).types = s.types := by
      induction starts generalizing s with
      | nil => rfl
      | cons start starts ih =>
        have first : (s.forgetPending start).types = s.types := by
          unfold HeapState.forgetPending
          split
          · rfl
          · dsimp only
            split <;> rfl
        exact (ih _).trans first
    exact congrArg (fun types ↦ (types[typeId]?).join) (forget _ _)

end Pon.Gc
