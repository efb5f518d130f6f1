import Pon.Gc.Runs

/-!
# What a collection frees

The mark phase marks the blocks that the roots reach. A collection frees no reachable block, and of
the unreachable ones it keeps the young ones and those that a finalizer can still touch. Young blocks
are kept without being traced, so that a young block can survive the blocks it points to.
-/

namespace Pon.Gc

open Pon.Graph

/-- Steps of a mutator that registers no finalizers and stores only pointers to allocated blocks. -/
def PlainStep (m : Machine) : Act → Prop
  | .register _ info => info.finalize = none
  | .write mem => ∀ block, m.world.heap.Allocated block →
      ∀ p ∈ m.world.heap.traceObject mem block.start block.typeId,
        p ∉ m.world.heap.traceObject m.world.mem block.start block.typeId →
          ∃ target, m.world.heap.Allocated target ∧ target.Contains p
  | _ => True

def PlainReached (m : Machine) : Prop :=
  Transition.Reachable (fun m ↦ ∃ mem, m = Machine.init mem) PlainStep Step m

variable {m : Machine} {block : Block} {w : World} {roots : List ℕ} {s : HeapState}

theorem PlainReached.reached (h : PlainReached m) : Reached m := by
  induction h with
  | start hinit => exact .start hinit
  | next _ _ hstep ih => exact .next ih trivial hstep

/-- The 64-bit word at an address, lowest byte first. -/
def readWord (mem : Memory) (address : ℕ) : ℕ :=
  ((List.range 8).map fun i ↦ (mem (address + i)).toNat * 256 ^ i).sum

/-- A type whose objects start with a pointer. -/
def nodeInfo (finalize : Option ℕ) : GcTypeInfo where
  trace mem object := if readWord mem object = 0 then [] else [readWord mem object]
  finalize

/-- An empty heap with the given types. -/
def typedMachine (types : List GcTypeInfo) : Machine where
  world := { heap := { HeapState.new with types := types.map some }, mem := fun _ ↦ 0 }
  frames := []
  log := []

/-- A large object of the given type is allocated at `start`. -/
def Machine.addNode (m : Machine) (typeId start : ℕ) : Machine :=
  { m with
    world := (World.allocLarge 2000 typeId start m.world).1
    log := .alloc start :: m.log }

/-- A multiple of 256 is stored in the object at `object`. -/
def Machine.setNext (m : Machine) (object value : ℕ) : Machine :=
  { m with world.mem := Function.update m.world.mem (object + 1) (UInt8.ofNat (value / 256)) }

/-- A whole collection that runs no finalizers. -/
def Machine.fullCollect (m : Machine) (roots : List ℕ) : Machine :=
  (m.collect roots).finish 0 ((m.collect roots).frames.head (List.cons_ne_nil _ _))

/-- The block of an object at `start` that is not young. -/
def oldNode (start typeId : ℕ) : Block where
  start
  size := 2000
  typeId
  young := false
  finalized := false

variable {typeId start : ℕ} {location : ObjectLocation} {cycle : CycleResult}

theorem step_addNode (info : GcTypeInfo) (held : List (ℕ × ℕ))
    (hinfo : m.world.heap.typeInfo typeId = some info) (hheld : m.held = held)
    (hstart : 0 < start ∧ 16 ∣ start) (hdisjoint : ∀ region ∈ held, DisjointRegions (start, 2000) region) :
    Step m (.alloc 2000 typeId start) (m.addNode typeId start) := by
  have halloc : m.world.alloc 0 2000 typeId start =
      some ((World.allocLarge 2000 typeId start m.world).1, start) := by
    simp [World.alloc, hinfo, smallObjectMax, World.allocLarge]
  exact Step.alloc ⟨hstart.1, hstart.2, hheld ▸ hdisjoint⟩ halloc

theorem step_setNext {object : ℕ} (value : ℕ)
    (hnode : m.world.heap.Allocated { oldNode object typeId with young := true }) :
    Step m (.write (m.setNext object value).world.mem) (m.setNext object value) := by
  apply Step.write
  intro address hne
  have haddress : address = object + 1 := by
    by_contra hother
    exact hne (Function.update_of_ne hother _ _)
  exact Or.inl ⟨_, hnode, by simp [haddress, Block.Contains, oldNode]⟩

/-- A heap with one object, which has survived a collection. -/
def survivedMachine : Machine :=
  ((typedMachine [nodeInfo none]).addNode 0 4096).fullCollect [4096]

theorem plainReached_survivedMachine : PlainReached survivedMachine := by
  have htyped : PlainReached (typedMachine [nodeInfo none]) :=
    .next (a := Act.register 0 (nodeInfo none)) (.start ⟨fun _ ↦ 0, rfl⟩) rfl (.register rfl)
  have hnode := Transition.Reachable.next (a := Act.alloc 2000 0 4096) htyped trivial
    (step_addNode (nodeInfo none) [] rfl rfl (by norm_num) (by simp))
  have hcollected := Transition.Reachable.next (a := Act.collect [4096]) hnode trivial .collect
  exact .next (a := Act.finish 0) hcollected trivial (.finish rfl rfl rfl)

theorem survivedMachine_oldNode : survivedMachine.world.heap.Allocated (oldNode 4096 0) :=
  ⟨.large 0, rfl⟩

/-- Nothing is reachable without roots. -/
theorem not_reachesBlock_nil (w : World) (block : Block) : ¬ w.ReachesBlock [] block := by
  rintro ⟨location, _, hreach⟩
  apply hreach.subset_closed fun _ ↦ False
  · intro p hp
    cases hp
  · exact fun _ h ↦ h.elim

/-- Marked locations hold a block. -/
theorem World.Sound.blockAt_of_reaches (h : w.Sound) (hreach : w.Reaches roots location) :
    ∃ block, w.heap.blockAt location = some block := by
  have hresolved : ∀ p, w.heap.classifyPointer p = some location →
      ∃ block, w.heap.blockAt location = some block := by
    intro p hp
    obtain ⟨block, hblock, _⟩ := h.valid.classifyPointer_eq_some.mp hp
    exact ⟨block, hblock⟩
  cases hreach with
  | root _ hp => exact hresolved _ hp
  | step _ _ hp => exact hresolved _ hp

theorem World.Sound.reachesBlock_iff (h : w.Sound) (hblock : w.heap.blockAt location = some block) :
    w.ReachesBlock roots block ↔ w.Reaches roots location := by
  constructor
  · rintro ⟨other, hother, hreach⟩
    have hsame := h.valid.location_unique hother hblock (h.valid.block_contains_start hother)
      (h.valid.block_contains_start hblock)
    exact hsame ▸ hreach
  · exact fun hreach ↦ ⟨location, hblock, hreach⟩

/-- The mark phase ends by itself, and the marked locations are the reachable blocks. -/
theorem World.Sound.markPhase_exact (h : w.Sound) (roots : List ℕ) :
    (w.heap.markPhase w.mem roots).drainRound w.mem = none ∧
      ∀ location, (w.heap.markPhase w.mem roots).marked location = true ↔
        ∃ block, w.heap.blockAt location = some block ∧
          w.ReachesBlock (roots ++ w.heap.pendingFinalizerRoots) block := by
  obtain ⟨hmarking, hspans, hlarge⟩ := h.valid.markPhase h.quiet w.mem roots
  refine ⟨by simp [HeapState.drainRound, hspans, hlarge], fun location ↦ ?_⟩
  rw [hmarking.marked_iff hspans hlarge]
  constructor
  · intro hreach
    obtain ⟨block, hblock⟩ := h.blockAt_of_reaches hreach
    exact ⟨block, hblock, (h.reachesBlock_iff hblock).mpr hreach⟩
  · rintro ⟨block, hblock, hreach⟩
    exact (h.reachesBlock_iff hblock).mp hreach

/-- A block that is reached by the roots survives; only its age changes. -/
theorem Collected.keeps_reachable (h : Collected w roots cycle) (hsound : w.Sound)
    (hreach : w.ReachesBlock (roots ++ w.heap.pendingFinalizerRoots) block) :
    cycle.heap.Allocated { block with young := false } := by
  obtain ⟨location, hblock, hlocation⟩ := hreach
  have hnotPending : block.start ∉ cycle.pending.map PendingFinalizer.start := by
    intro hmem
    obtain ⟨entry, hentry, hstart⟩ := List.mem_map.mp hmem
    obtain ⟨other, hother, hstart', hdead, _⟩ := (h.pending_iff entry).mp hentry
    have hsame := hsound.valid.location_unique hother hblock (hsound.valid.block_contains_start hother)
      (hstart' ▸ hstart ▸ hsound.valid.block_contains_start hblock)
    exact hdead (hsame ▸ hlocation)
  have hsurvives := h.survives hblock (hlocation.mono fun p hp ↦ List.mem_append_left _ hp)
  simpa [hnotPending] using hsurvives

/-- Every other block that is old is freed. -/
theorem Collected.frees (h : Collected w roots cycle) (hsound : w.Sound)
    (hallocated : w.heap.Allocated block)
    (hdead : ¬ w.ReachesBlock (roots ++ w.heap.pendingFinalizerRoots ++
      cycle.pending.map PendingFinalizer.start) block) (hold : block.young = false) {block' : Block}
    (hblock' : cycle.heap.Allocated block') :
    block'.start ≠ block.start := by
  obtain ⟨location, other, hother, hsurvives, rfl⟩ := (h.allocated block').mp hblock'
  intro hstart
  have hsame : other = block := hsound.valid.allocated_unique ⟨location, hother⟩ hallocated hstart
  subst hsame
  rcases hsurvives with hreach | hyoung
  · exact hdead ⟨location, hother, hreach⟩
  · rw [hold] at hyoung
    cases hyoung

/-- In every state of every run the mark phase ends and marks exactly what the roots and the pending
finalizers reach. A collection keeps these blocks, and frees every old block that is out of reach of
the roots, of the pending finalizers and of the blocks queued for finalization in this cycle. -/
theorem collect_exact {m : Machine} (h : Reached m) (roots : List ℕ) :
    (m.world.heap.markPhase m.world.mem roots).drainRound m.world.mem = none ∧
    (∀ location, (m.world.heap.markPhase m.world.mem roots).marked location = true ↔
      ∃ block, m.world.heap.blockAt location = some block ∧
        m.world.ReachesBlock (roots ++ m.world.heap.pendingFinalizerRoots) block) ∧
    (∀ block, m.world.ReachesBlock (roots ++ m.world.heap.pendingFinalizerRoots) block →
      (m.collect roots).world.heap.Allocated { block with young := false }) ∧
    ∀ block, m.world.heap.Allocated block → block.young = false →
      (m.world.heap.finalizerOf block.typeId = none ∨ block.finalized = true) →
      ¬ m.world.ReachesBlock (roots ++ m.world.heap.pendingFinalizerRoots ++
        (m.world.heap.collectLocked m.world.mem roots).pending.map PendingFinalizer.start) block →
      ∀ block', (m.collect roots).world.heap.Allocated block' → block'.start ≠ block.start := by
  have hsound := h.inv.sound
  have hcollected := hsound.collectLocked roots
  obtain ⟨hends, hexact⟩ := hsound.markPhase_exact roots
  simp only [Machine.collect_world]
  refine ⟨hends, hexact, fun block hreach ↦ hcollected.keeps_reachable hsound hreach, ?_⟩
  intro block hallocated hold _ hdead block' hblock'
  exact hcollected.frees hsound hallocated hdead hold hblock'

/-- An old object stays while it is a root, and goes without roots. -/
theorem collect_exact_survived :
    (survivedMachine.collect [4096]).world.heap.Allocated (oldNode 4096 0) ∧
      ∀ block, (survivedMachine.collect []).world.heap.Allocated block → block.start ≠ 4096 := by
  have hreached := plainReached_survivedMachine.reached
  obtain ⟨_, _, hkeeps, _⟩ := collect_exact hreached [4096]
  obtain ⟨_, _, _, hfrees⟩ := collect_exact hreached []
  constructor
  · apply hkeeps (oldNode 4096 0)
    have hresolve : survivedMachine.world.heap.classifyPointer 4096 = some (.large 0) := rfl
    exact ⟨.large 0, rfl, .root (by simp) hresolve⟩
  · exact hfrees (oldNode 4096 0) survivedMachine_oldNode rfl (Or.inl rfl) (not_reachesBlock_nil _ _)

/-- Two old objects; the one at 4096 has a finalizer and points to the one at 8192, which has none. -/
def touchedMachine : Machine :=
  ((((typedMachine [nodeInfo (some 1), nodeInfo none]).addNode 0 4096).addNode 1 8192).setNext 4096
    8192).fullCollect []

theorem reached_touchedMachine : Reached touchedMachine := by
  have hfirst : Reached (typedMachine [nodeInfo (some 1)]) :=
    .next (a := Act.register 0 (nodeInfo (some 1))) (.start ⟨fun _ ↦ 0, rfl⟩) trivial (.register rfl)
  have htyped : Reached (typedMachine [nodeInfo (some 1), nodeInfo none]) :=
    .next (a := Act.register 1 (nodeInfo none)) hfirst trivial (.register rfl)
  have hnode := Transition.Reachable.next (a := Act.alloc 2000 0 4096) htyped trivial
    (step_addNode (nodeInfo (some 1)) [] rfl rfl (by norm_num) (by simp))
  have hnodes := Transition.Reachable.next (a := Act.alloc 2000 1 8192) hnode trivial
    (step_addNode (nodeInfo none) [(4096, 2000)] rfl rfl (by norm_num) (by simp [DisjointRegions]))
  have hfirstNode : (((typedMachine [nodeInfo (some 1), nodeInfo none]).addNode 0 4096).addNode 1
      8192).world.heap.Allocated { oldNode 4096 0 with young := true } := ⟨.large 0, rfl⟩
  have hwritten := Transition.Reachable.next hnodes trivial (step_setNext 8192 hfirstNode)
  have hcollected := Transition.Reachable.next (a := Act.collect []) hwritten trivial .collect
  exact .next (a := Act.finish 0) hcollected trivial (.finish rfl rfl rfl)

/-- An unreachable old object without a finalizer is not always freed: here the finalizer of another
object can still touch it. -/
theorem collect_keeps_touched :
    ¬ ∀ (m : Machine) (roots : List ℕ) (block : Block), Reached m → m.world.heap.Allocated block →
      ¬ m.world.ReachesBlock (roots ++ m.world.heap.pendingFinalizerRoots) block →
      block.young = false → (m.world.heap.finalizerOf block.typeId = none ∨ block.finalized = true) →
      ∀ block', (m.collect roots).world.heap.Allocated block' → block'.start ≠ block.start := by
  intro hfrees
  have hallocated : touchedMachine.world.heap.Allocated (oldNode 8192 1) := ⟨.large 1, rfl⟩
  have hkept : (touchedMachine.collect []).world.heap.Allocated (oldNode 8192 1) := ⟨.large 1, rfl⟩
  exact hfrees touchedMachine [] (oldNode 8192 1) reached_touchedMachine hallocated
    (not_reachesBlock_nil _ _) rfl (Or.inl rfl) (oldNode 8192 1) hkept rfl

/-- No type has a finalizer and none is running. -/
structure Machine.Plain (m : Machine) : Prop where
  types : ∀ info, some info ∈ m.world.heap.types → info.finalize = none
  pending : m.world.heap.pendingFinalizerRoots = []

theorem HeapState.registerType_types {heap : HeapState} {info : GcTypeInfo}
    (h : s.registerType typeId info = some heap) {other : GcTypeInfo}
    (hother : some other ∈ heap.types) :
    other = info ∨ some other ∈ s.types := by
  unfold HeapState.registerType at h
  split at h
  · cases h
    rcases List.mem_or_eq_of_mem_set hother with hold | hnew
    · rcases List.mem_append.mp hold with hmem | hnone
      · exact Or.inr hmem
      · have := List.eq_of_mem_replicate hnone
        cases this
    · exact Or.inl (Option.some.inj hnew)
  · cases h

theorem Machine.Plain.finalizerOf (h : m.Plain) (typeId : ℕ) :
    m.world.heap.finalizerOf typeId = none := by
  unfold HeapState.finalizerOf HeapState.typeInfo
  cases hget : m.world.heap.types[typeId]? with
  | none => rfl
  | some entry =>
    cases entry with
    | none => rfl
    | some info => exact h.types info (List.mem_of_getElem? hget)

theorem Machine.Plain.collect_pending (h : m.Plain) (hsound : m.world.Sound) (roots : List ℕ) :
    (m.world.heap.collectLocked m.world.mem roots).pending = [] := by
  apply List.eq_nil_iff_forall_not_mem.mpr
  intro entry hentry
  obtain ⟨block, _, _, _, _, _, hfinalizer⟩ :=
    ((hsound.collectLocked roots).pending_iff entry).mp hentry
  rw [h.finalizerOf] at hfinalizer
  cases hfinalizer

theorem HeapState.forgetPending_of_nil (h : s.pendingFinalizerRoots = []) (starts : List ℕ) :
    starts.foldl HeapState.forgetPending s = s := by
  induction starts with
  | nil => rfl
  | cons start rest ih =>
    have hfirst : s.forgetPending start = s := by
      unfold HeapState.forgetPending
      rw [h]
      rfl
    rw [List.foldl_cons, hfirst, ih]

theorem Step.plain {m' : Machine} {act : Act} (hstep : Step m act m') (hguard : PlainStep m act)
    (hinv : m.Inv) (h : m.Plain) : m'.Plain := by
  cases hstep with
  | register hregister =>
    obtain ⟨_, _, hpending, _, _⟩ := hinv.sound.registerType hregister
    refine ⟨fun other hother ↦ ?_, hpending.trans h.pending⟩
    rcases HeapState.registerType_types hregister hother with rfl | hold
    · exact hguard
    · exact h.types other hold
  | alloc hfresh halloc =>
    obtain ⟨_, _, _, hallocates⟩ := hinv.sound.alloc_some hfresh.forHeap halloc
    exact ⟨by simpa only [hallocates.types] using h.types, hallocates.pending.trans h.pending⟩
  | write _ => exact ⟨h.types, h.pending⟩
  | @collect roots =>
    have hcollected := hinv.sound.collectLocked roots
    constructor
    · rw [Machine.collect_world, hcollected.types]
      exact h.types
    · rw [Machine.collect_world, hcollected.pendingRoots, h.collect_pending hinv.sound, h.pending]
      rfl
  | callFinalizer _ _ _ => exact ⟨h.types, h.pending⟩
  | returnFinalizer _ _ => exact ⟨h.types, h.pending⟩
  | @finish _ frame _ _ _ =>
    have hsame := HeapState.forgetPending_of_nil h.pending (frame.pending.map PendingFinalizer.start)
    constructor
    · simpa only [Machine.finish, hsame] using h.types
    · simpa only [Machine.finish, hsame] using h.pending

theorem PlainReached.plain (h : PlainReached m) : m.Plain := by
  induction h with
  | start hinit =>
    obtain ⟨mem, rfl⟩ := hinit
    exact ⟨fun info hinfo ↦ by simp [Machine.init, HeapState.new] at hinfo, rfl⟩
  | next hprev hguard hstep ih => exact hstep.plain hguard (PlainReached.reached hprev).inv ih

/-- Every pointer into an allocated block that a surviving block holds still points into an allocated
block. -/
def Machine.Closes (m m' : Machine) : Prop :=
  ∀ block, m'.world.heap.Allocated block →
    ∀ p ∈ m'.world.heap.traceObject m'.world.mem block.start block.typeId,
      (∃ target, m.world.heap.Allocated target ∧ target.Contains p) →
        ∃ target, m'.world.heap.Allocated target ∧ target.Contains p

/-- Young blocks that the roots do not reach point only to young blocks and to blocks that the roots
reach. -/
def Machine.YoungClosed (m : Machine) (roots : List ℕ) : Prop :=
  ∀ block, m.world.heap.Allocated block → block.young = true → ¬ m.world.ReachesBlock roots block →
    ∀ p ∈ m.world.heap.traceObject m.world.mem block.start block.typeId,
      ∀ target, m.world.heap.Allocated target → target.Contains p →
        target.young = true ∨ m.world.ReachesBlock roots target

/-- Without finalizers the survivors are the reachable blocks and the young ones. -/
theorem Machine.Plain.allocated_collect (h : m.Plain) (hsound : m.world.Sound) (roots : List ℕ)
    (block' : Block) :
    (m.collect roots).world.heap.Allocated block' ↔ ∃ block, m.world.heap.Allocated block ∧
      (m.world.ReachesBlock roots block ∨ block.young = true) ∧ block' = { block with young := false } := by
  have hiff := (hsound.collectLocked roots).allocated block'
  rw [h.collect_pending hsound, h.pending] at hiff
  simp only [List.map_nil, List.append_nil, List.not_mem_nil, decide_false,
    Block.finalizeIf_false] at hiff
  rw [Machine.collect_world, hiff]
  constructor
  · rintro ⟨location, block, hblock, hsurvives, rfl⟩
    refine ⟨block, ⟨location, hblock⟩, ?_, rfl⟩
    rwa [hsound.reachesBlock_iff hblock]
  · rintro ⟨block, ⟨location, hblock⟩, hsurvives, rfl⟩
    refine ⟨location, block, hblock, ?_, rfl⟩
    rwa [hsound.reachesBlock_iff hblock] at hsurvives

theorem Machine.Plain.closes_collect_iff (h : m.Plain) (hsound : m.world.Sound) (roots : List ℕ) :
    m.Closes (m.collect roots) ↔ m.YoungClosed roots := by
  have hsurvivors := h.allocated_collect hsound roots
  have htrace : ∀ block : Block, (m.collect roots).world.heap.traceObject (m.collect roots).world.mem
      block.start block.typeId = m.world.heap.traceObject m.world.mem block.start block.typeId := by
    intro block
    rw [Machine.collect_world]
    unfold HeapState.traceObject HeapState.typeInfo
    rw [(hsound.collectLocked roots).types]
  constructor
  · intro hcloses block hblock hyoung _ p hp target htarget hcontains
    have hsurvives := (hsurvivors { block with young := false }).mpr ⟨block, hblock, Or.inr hyoung, rfl⟩
    obtain ⟨target', htarget', hcontains'⟩ := hcloses _ hsurvives p
      (by rw [htrace]; exact hp) ⟨target, htarget, hcontains⟩
    obtain ⟨old, ⟨location', hold⟩, hkept, rfl⟩ := (hsurvivors target').mp htarget'
    obtain ⟨location, htarget⟩ := htarget
    have hsame := hsound.valid.location_unique hold htarget hcontains' hcontains
    rw [hsame, htarget] at hold
    cases hold
    exact hkept.symm
  · intro hyoungClosed block' hblock' p hp htarget
    obtain ⟨target, htarget, hcontains⟩ := htarget
    obtain ⟨block, hblock, hkept, rfl⟩ := (hsurvivors block').mp hblock'
    rw [htrace] at hp
    have htargetKept : m.world.ReachesBlock roots target ∨ target.young = true := by
      by_cases hreach : m.world.ReachesBlock roots block
      · -- What a reachable block points to is reachable.
        left
        obtain ⟨location, hlocation, hpath⟩ := hreach
        obtain ⟨location', hlocation'⟩ := htarget
        refine ⟨location', hlocation', .step hpath ?_
          (hsound.valid.classifyPointer_eq_some.mpr ⟨target, hlocation', hcontains⟩)⟩
        unfold HeapState.children
        rw [hlocation]
        exact hp
      · have hyoung := hkept.resolve_left hreach
        exact (hyoungClosed block hblock hyoung hreach p hp target htarget hcontains).symm
    exact ⟨_, (hsurvivors _).mpr ⟨target, htarget, htargetKept, rfl⟩, hcontains⟩

/-- In every state of every run without finalizers, a collection leaves no block with a pointer to a
block that it frees if and only if the unreachable young blocks point only to young and to reachable
blocks. -/
theorem collect_closes_iff {m : Machine} (h : PlainReached m) (roots : List ℕ) :
    m.Closes (m.collect roots) ↔ m.YoungClosed roots :=
  h.plain.closes_collect_iff h.reached.inv.sound roots

theorem HeapState.mem_large_of_allocated (hspans : s.spans = []) (h : s.Allocated block) :
    block ∈ s.large.map LargeObject.block := by
  obtain ⟨location, hlocation⟩ := h
  cases location with
  | span i j => simp [HeapState.blockAt, HeapState.span?, hspans] at hlocation
  | large i =>
    rw [HeapState.blockAt, ← List.getElem?_map] at hlocation
    exact List.mem_of_getElem? hlocation

/-- A young object that points to an old one. -/
def youngMachine : Machine :=
  (survivedMachine.addNode 0 8192).setNext 8192 4096

theorem plainReached_youngMachine : PlainReached youngMachine := by
  have hnodes := Transition.Reachable.next (a := Act.alloc 2000 0 8192) plainReached_survivedMachine trivial
    (step_addNode (nodeInfo none) [(4096, 2000)] rfl rfl (by norm_num) (by simp [DisjointRegions]))
  have hnode : (survivedMachine.addNode 0 8192).world.heap.Allocated { oldNode 8192 0 with young := true } :=
    ⟨.large 1, rfl⟩
  refine Transition.Reachable.next hnodes ?_ (step_setNext 4096 hnode)
  -- The only pointer stored is the start of the old object.
  intro block hblock p hp _
  have hpointer : p = 4096 := by
    have hlarge : (survivedMachine.addNode 0 8192).world.heap.large.map LargeObject.block =
        [oldNode 4096 0, { oldNode 8192 0 with young := true }] := rfl
    have hmem := HeapState.mem_large_of_allocated rfl hblock
    rw [hlarge] at hmem
    rcases List.mem_cons.mp hmem with rfl | hmem
    · have hnone : (survivedMachine.addNode 0 8192).world.heap.traceObject
          youngMachine.world.mem 4096 0 = [] := by decide
      exact absurd (hnone ▸ hp) List.not_mem_nil
    · obtain rfl := List.mem_singleton.mp hmem
      have hone : (survivedMachine.addNode 0 8192).world.heap.traceObject
          youngMachine.world.mem 8192 0 = [4096] := by decide
      exact List.mem_singleton.mp (hone ▸ hp)
  exact ⟨oldNode 4096 0, ⟨.large 0, rfl⟩, by simp [hpointer, Block.Contains, oldNode]⟩

/-- With the old object as the root, both survive. -/
theorem collect_closes_iff_survived : youngMachine.Closes (youngMachine.collect [4096]) := by
  apply (collect_closes_iff plainReached_youngMachine [4096]).mpr
  intro block _ _ _ p _ target htarget _
  have hlarge : youngMachine.world.heap.large.map LargeObject.block =
      [oldNode 4096 0, { oldNode 8192 0 with young := true }] := rfl
  have hmem := HeapState.mem_large_of_allocated rfl htarget
  rw [hlarge] at hmem
  rcases List.mem_cons.mp hmem with rfl | hmem
  · exact .inr ⟨.large 0, rfl, .root List.mem_cons_self rfl⟩
  · rw [List.mem_singleton.mp hmem]
    exact .inl rfl

/-- Without roots, the young object survives and the old one that it points to is freed. -/
theorem collect_leaves_dangling :
    ¬ ∀ (m : Machine) (roots : List ℕ), PlainReached m → m.Closes (m.collect roots) := by
  intro hcloses
  have hplain := plainReached_youngMachine
  have hclosed := (hplain.plain.closes_collect_iff hplain.reached.inv.sound []).mp
    (hcloses youngMachine [] hplain)
  have hyoung : youngMachine.world.heap.Allocated { oldNode 8192 0 with young := true } :=
    ⟨.large 1, rfl⟩
  have hold : youngMachine.world.heap.Allocated (oldNode 4096 0) := ⟨.large 0, rfl⟩
  have hpointer : 4096 ∈ youngMachine.world.heap.traceObject youngMachine.world.mem 8192 0 := by
    decide
  rcases hclosed _ hyoung rfl (not_reachesBlock_nil _ _) 4096 hpointer _ hold
    (by simp [Block.Contains, oldNode]) with hage | hreach
  · cases hage
  · exact not_reachesBlock_nil _ _ hreach

end Pon.Gc
