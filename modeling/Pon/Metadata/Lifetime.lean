import Pon.Metadata.Tables
import Pon.Gc.Unfinalized

/-!
# Lifetime of the side tables

Functions are allocated on the heap and freed by its collector. The type of functions traces and finalizes
a function with the help of the side tables, so that each change of the tables changes the information of
the type. An allocation is known by its address and by the number of allocations there so far.
-/

namespace Pon.Metadata

open Gc

/-! ## Process -/

/-- `TYPE_ID_FUNCTION`. -/
def typeIdFunction : ℕ := 4

/-- `finalize_function`, as a finalizer of the heap. -/
def finalizeFunctionId : ℕ := 4

/-- The size of a function object and the offsets of its fields that hold objects. -/
structure FunctionLayout where
  size : ℕ
  annotations : ℕ
  attrDict : ℕ
  annotations_le : annotations + 8 ≤ size
  attrDict_le : attrDict + 8 ≤ size

/-- The heap, the side tables and the values of the module objects. -/
structure Process where
  machine : Machine
  tables : SideTables
  moduleAttrs : ℕ → Option (List ℕ)

/-- The number of allocations at an address. -/
def generation (log : List Event) (address : ℕ) : ℕ := log.count (.alloc address)

def fieldRef (mem : Memory) (address : ℕ) : List ℕ :=
  if readWord mem address = 0 then [] else [readWord mem address]

def traceFunction (layout : FunctionLayout) (tables : SideTables) (moduleAttrs : ℕ → Option (List ℕ))
    (mem : Memory) (object : ℕ) : List ℕ :=
  if object = 0 then []
  else
    fieldRef mem (object + layout.attrDict) ++ fieldRef mem (object + layout.annotations) ++
      tables.visitFunctionGcRefs object moduleAttrs

def functionInfo (layout : FunctionLayout) (tables : SideTables)
    (moduleAttrs : ℕ → Option (List ℕ)) : GcTypeInfo where
  trace := traceFunction layout tables moduleAttrs
  finalize := some finalizeFunctionId

section System

variable (layout : FunctionLayout) (objects : Objects)

/-- The process with other tables, which the type of functions reads from then on. -/
def Process.install (process : Process) (tables : SideTables) (moduleAttrs : ℕ → Option (List ℕ)) :
    Process where
  machine :=
    { process.machine with
      world.heap :=
        (process.machine.world.heap.registerType typeIdFunction
          (functionInfo layout tables moduleAttrs)).getD process.machine.world.heap }
  tables
  moduleAttrs

inductive Action
  | heap (act : Act)
  | register (function : ℕ) (registration : Registration)
  | setModuleAttrs (moduleAttrs : ℕ → Option (List ℕ))

/-- A step of the heap, a registration for an allocated function, or a change of a module. The tables lose
the entries of a function in its finalizer. The callbacks of weak references that the finalizer calls come
before, as other steps. -/
inductive Process.Step : Process → Action → Process → Prop
  | heap {process : Process} {act : Act} {machine : Machine} :
      Gc.Step process.machine act machine → (∀ info, act ≠ .register typeIdFunction info) →
      (∀ index, act ≠ .returnFinalizer index) →
      Process.Step process (.heap act) { process with machine }
  | returnFinalizer {process : Process} {index : ℕ} {frame : Frame} {entry : PendingFinalizer}
      {machine : Machine} :
      process.machine.frames[index]? = some frame → frame.running = some entry →
      Gc.Step process.machine (.returnFinalizer index) machine →
      Process.Step process (.heap (.returnFinalizer index))
        (Process.install layout { process with machine }
          (if entry.finalize = finalizeFunctionId then process.tables.finalizeFunction entry.start
            else process.tables)
          process.moduleAttrs)
  | register {process : Process} {block : Block} {registration : Registration} :
      process.machine.world.heap.Allocated block → block.typeId = typeIdFunction →
      Process.Step process (.register block.start registration)
        (process.install layout
          (process.tables.register objects (generation process.machine.log block.start) block.start
            registration)
          process.moduleAttrs)
  | setModuleAttrs {process : Process} {moduleAttrs : ℕ → Option (List ℕ)} :
      Process.Step process (.setModuleAttrs moduleAttrs)
        (process.install layout process.tables moduleAttrs)

/-- An empty heap that knows the type of functions, and empty tables. -/
def Process.Initial (process : Process) : Prop :=
  ∃ mem moduleAttrs, process =
    Process.install layout { machine := Machine.init mem, tables := .empty, moduleAttrs } .empty
      moduleAttrs

/-! ## Faithful tables -/

/-- The entries of each allocated function were stored for that allocation. What they hold is traced, and
no collection frees it while its roots reach the function. -/
structure Process.Faithful (process : Process) : Prop where
  owned : ∀ block, process.machine.world.heap.Allocated block → block.typeId = typeIdFunction →
    process.tables.OwnedBy (generation process.machine.log block.start) block.start
  traced : ∀ location block, process.machine.world.heap.blockAt location = some block →
    block.typeId = typeIdFunction → ∀ held ∈ process.tables.heldObjects block.start,
      held ∈ process.machine.world.heap.children process.machine.world.mem location
  kept : ∀ roots block, process.machine.world.ReachesBlock roots block →
    block.typeId = typeIdFunction → ∀ held ∈ process.tables.heldObjects block.start,
      ∀ object, process.machine.world.heap.Allocated object → object.Contains held →
        ∃ object', (process.machine.collect roots).world.heap.Allocated object' ∧
          object.SameObject object'

/-- No annotate function is set, and nothing is registered for a function whose finalizer has returned. -/
def Process.Settled (process : Process) : Action → Prop
  | .register function registration =>
    (∀ annotate, registration ≠ .functionAnnotate annotate) ∧
      ∀ block, process.machine.world.heap.Allocated block → block.start = function →
        process.machine.Unfinalized block
  | _ => True

def Process.SettledReached (process : Process) : Prop :=
  Transition.Reachable (Process.Initial layout) Process.Settled (Process.Step layout objects) process

def Process.Reached (process : Process) : Prop :=
  Transition.Reachable (Process.Initial layout) (fun _ _ ↦ True) (Process.Step layout objects) process

end System

/-! ## Installed tables -/

section Install

variable {layout : FunctionLayout} {objects : Objects}

section

variable (process : Process) (tables : SideTables) (moduleAttrs : ℕ → Option (List ℕ))

/-- Installing tables is registering the type of functions again. -/
theorem step_install :
    Gc.Step process.machine (.register typeIdFunction (functionInfo layout tables moduleAttrs))
      (process.install layout tables moduleAttrs).machine := by
  obtain ⟨heap, registered⟩ : ∃ heap, process.machine.world.heap.registerType typeIdFunction
      (functionInfo layout tables moduleAttrs) = some heap := ⟨_, if_pos (by decide)⟩
  have installed : (process.install layout tables moduleAttrs).machine =
      { process.machine with world.heap := heap } := by
    rw [Process.install]
    dsimp only
    rw [registered]
    rfl
  rw [installed]
  exact .register registered

theorem typeInfo_install :
    (process.install layout tables moduleAttrs).machine.world.heap.typeInfo typeIdFunction =
      some (functionInfo layout tables moduleAttrs) := by
  obtain ⟨heap, registered⟩ : ∃ heap, process.machine.world.heap.registerType typeIdFunction
      (functionInfo layout tables moduleAttrs) = some heap := ⟨_, if_pos (by decide)⟩
  rw [Process.install]
  dsimp only
  rw [registered, Option.getD_some, HeapState.typeInfo_registerType registered, if_pos rfl]

end

/-! ## Invariant -/

/-- An entry of the tables belongs to an allocated function whose finalizer has not returned. -/
structure Process.Inv (layout : FunctionLayout) (process : Process) : Prop where
  reached : Gc.Reached process.machine
  typeInfo : process.machine.world.heap.typeInfo typeIdFunction =
    some (functionInfo layout process.tables process.moduleAttrs)
  finalizers : process.machine.FinalizesWith typeIdFunction finalizeFunctionId
  unannotated : ∀ function, process.tables.annotateFunctions function = none
  entries : ∀ function, process.tables.Clear function ∨ ∃ block,
    process.machine.world.heap.Allocated block ∧ block.start = function ∧
      block.typeId = typeIdFunction ∧ process.machine.Unfinalized block ∧
      process.tables.OwnedBy (generation process.machine.log function) function

variable {process : Process} {act : Act} {block : Block} {machine : Machine}

theorem Process.Inv.finalizerOf (inv : process.Inv layout) :
    process.machine.world.heap.finalizerOf typeIdFunction = some finalizeFunctionId := by
  unfold HeapState.finalizerOf
  rw [inv.typeInfo]
  rfl

theorem generation_release (detached : List (ℕ × ℕ)) (log : List Event) (address : ℕ) :
    generation (detached.map (fun region ↦ Event.release region.1 region.2) ++ log) address =
      generation log address := by
  unfold generation
  rw [List.count_append, List.count_eq_zero.mpr, Nat.zero_add]
  intro member
  obtain ⟨region, -, same⟩ := List.mem_map.mp member
  exact nomatch same

theorem generation_cons {event : Event} {address : ℕ} (other : event ≠ .alloc address) (log : List Event) :
    generation (event :: log) address = generation log address := List.count_cons_of_ne other

/-- No step of the heap allocates at the start of an allocated block. -/
theorem generation_step {m m' : Machine} (step : Gc.Step m act m') (inv : m.Inv)
    (allocated : m.world.heap.Allocated block) :
    generation m'.log block.start = generation m.log block.start := by
  cases step with
  | register | write | collect => rfl
  | @alloc size typeId fresh rounds start w isFresh alloc =>
    obtain ⟨location, new, isStart, allocates⟩ := inv.sound.alloc_some isFresh.forHeap alloc
    have apart : new.start ≠ block.start := allocates.start_ne allocated
    exact generation_cons (fun same ↦ apart (isStart.trans (Event.alloc.inj same))) _
  | @callFinalizer _ _ entry => exact @generation_cons (.call entry.start) block.start nofun m.log
  | @returnFinalizer _ _ entry => exact @generation_cons (.ret entry.start) block.start nofun m.log
  | finish => exact generation_release _ _ _

/-- What the invariant says of an entry, after a step of the heap that is not its finalizer. -/
theorem Process.Inv.entries_step (inv : process.Inv layout)
    (step : Gc.Step process.machine act machine) (function : ℕ)
    (other : ∀ index frame entry, act = .returnFinalizer index →
      process.machine.frames[index]? = some frame → frame.running = some entry → entry.start ≠ function) :
    process.tables.Clear function ∨ ∃ block, machine.world.heap.Allocated block ∧
      block.start = function ∧ block.typeId = typeIdFunction ∧ machine.Unfinalized block ∧
      process.tables.OwnedBy (generation machine.log function) function := by
  refine (inv.entries function).imp_right ?_
  rintro ⟨block, allocated, rfl, isType, unfinalized, owned⟩
  have finalizer : process.machine.world.heap.finalizerOf block.typeId ≠ none := by
    rw [isType, inv.finalizerOf]
    exact nofun
  obtain ⟨block', allocated', same, unfinalized'⟩ :=
    step.unfinalized inv.reached.inv allocated finalizer unfinalized other
  refine ⟨block', allocated', same.1, same.2.2.trans isType, unfinalized', ?_⟩
  rwa [generation_step step inv.reached.inv allocated]

theorem Process.inv_initial (initial : process.Initial layout) : process.Inv layout := by
  obtain ⟨mem, moduleAttrs, rfl⟩ := initial
  exact
    { reached := .next (.start ⟨mem, rfl⟩) trivial
        (step_install { machine := Machine.init mem, tables := .empty, moduleAttrs } _ _)
      typeInfo := typeInfo_install _ _ _
      finalizers := List.forall_mem_nil _
      unannotated := fun _ ↦ rfl
      entries := fun _ ↦ Or.inl SideTables.clear_empty }

section

variable (inv : process.Inv layout)
include inv

theorem Process.Inv.heap (step : Gc.Step process.machine act machine)
    (notRegister : ∀ info, act ≠ .register typeIdFunction info)
    (notReturn : ∀ index, act ≠ .returnFinalizer index) :
    Process.Inv layout { process with machine } where
  reached := .next inv.reached trivial step
  typeInfo := (step.typeInfo inv.reached.inv notRegister).trans inv.typeInfo
  finalizers := step.finalizesWith inv.reached inv.finalizerOf inv.finalizers
  unannotated := inv.unannotated
  entries function := inv.entries_step step function fun index _ _ isReturn ↦ absurd isReturn (notReturn index)

theorem Process.Inv.returnFinalizer {index : ℕ} {frame : Frame}
    {entry : PendingFinalizer} (found : process.machine.frames[index]? = some frame)
    (running : frame.running = some entry)
    (step : Gc.Step process.machine (.returnFinalizer index) machine) :
    Process.Inv layout (Process.install layout { process with machine }
      (if entry.finalize = finalizeFunctionId then process.tables.finalizeFunction entry.start
        else process.tables)
      process.moduleAttrs) := by
  have reached : Gc.Reached machine := .next inv.reached trivial step
  refine
    { reached := .next reached trivial (step_install { process with machine } _ _)
      typeInfo := typeInfo_install _ _ _
      finalizers := step.finalizesWith inv.reached inv.finalizerOf inv.finalizers
      unannotated := fun function ↦ ?_
      entries := fun function ↦ ?_ }
  · change (if _ then _ else _ : SideTables).annotateFunctions function = none
    split_ifs
    · exact inv.unannotated function
    · exact inv.unannotated function
  · by_cases isEntry : entry.start = function
    · left
      change (if _ then _ else _ : SideTables).Clear function
      obtain clear | ⟨block, allocated, isStart, isType, -, -⟩ := inv.entries function
      · split_ifs
        · exact isEntry ▸ SideTables.clear_finalizeFunction (inv.unannotated _)
        · exact clear
      · -- The entry of an allocated function has the finalizer of functions.
        have unfinished : entry ∈ frame.unfinished := by
          rw [Frame.unfinished, running]
          exact List.mem_cons_self
        have isFinalize : entry.finalize = finalizeFunctionId :=
          inv.finalizers frame (List.mem_of_getElem? found) entry unfinished block allocated
            (isStart.trans isEntry.symm) isType
        rw [if_pos isFinalize]
        exact isEntry ▸ SideTables.clear_finalizeFunction (inv.unannotated _)
    · have same : SideTables.SameAt process.tables
          (if entry.finalize = finalizeFunctionId then process.tables.finalizeFunction entry.start
            else process.tables) function := by
        split_ifs
        · exact SideTables.sameAt_finalizeFunction (Ne.symm isEntry)
        · exact .refl
      have before := inv.entries_step step function fun index' frame' entry' isReturn
          found' running' ↦ by
        obtain rfl := Act.returnFinalizer.inj isReturn
        obtain rfl := Option.some.inj (found.symm.trans found')
        obtain rfl := Option.some.inj (running.symm.trans running')
        exact isEntry
      refine before.imp same.clear ?_
      rintro ⟨block, allocated, isStart, isType, unfinalized, owned⟩
      exact ⟨block, allocated, isStart, isType, unfinalized, same.ownedBy owned⟩

theorem Process.Inv.register {registration : Registration}
    (allocated : process.machine.world.heap.Allocated block)
    (isType : block.typeId = typeIdFunction)
    (settled : process.Settled (.register block.start registration)) :
    Process.Inv layout (process.install layout
      (process.tables.register objects (generation process.machine.log block.start) block.start
        registration)
      process.moduleAttrs) := by
  have registered := SideTables.registered_register process.tables objects
    (generation process.machine.log block.start) block.start registration
  refine
    { inv with
      reached := .next inv.reached trivial (step_install _ _ _)
      typeInfo := typeInfo_install _ _ _
      unannotated := fun function ↦ ?_
      entries := fun function ↦ ?_ }
  · exact (congrFun (registered.annotateFunctions settled.1) function).trans (inv.unannotated function)
  · by_cases isFunction : function = block.start
    · subst isFunction
      refine Or.inr ⟨block, allocated, rfl, isType, settled.2 block allocated rfl, registered.ownedBy ?_⟩
      obtain clear | ⟨-, -, -, -, -, owned⟩ := inv.entries block.start
      · exact clear.ownedBy _
      · exact owned
    · have same := registered.sameAt isFunction
      refine (inv.entries function).imp same.clear ?_
      rintro ⟨other, allocated, isStart, isType, unfinalized, owned⟩
      exact ⟨other, allocated, isStart, isType, unfinalized, same.ownedBy owned⟩

theorem Process.Inv.step {process' : Process} {action : Action}
    (settled : process.Settled action) (step : Process.Step layout objects process action process') :
    process'.Inv layout := by
  cases step with
  | heap step notRegister notReturn => exact inv.heap step notRegister notReturn
  | returnFinalizer found running step => exact inv.returnFinalizer found running step
  | register allocated isType => exact inv.register allocated isType settled
  | setModuleAttrs =>
    exact
      { inv with
        reached := .next inv.reached trivial (step_install _ _ _)
        typeInfo := typeInfo_install _ _ _ }

end

theorem Process.SettledReached.inv (reached : process.SettledReached layout objects) :
    process.Inv layout :=
  Transition.Reachable.invariant (Process.Inv layout) (fun _ ↦ Process.inv_initial)
    (fun _ _ _ inv settled step ↦ inv.step settled step) reached

/-! ## Tracing -/

variable {location : ObjectLocation}

/-- The type of functions reports the fields of a function and what the tables visit for it. -/
theorem children_function {heap : HeapState} {tables : SideTables}
    {moduleAttrs : ℕ → Option (List ℕ)}
    (info : heap.typeInfo typeIdFunction = some (functionInfo layout tables moduleAttrs))
    (found : heap.blockAt location = some block)
    (isType : block.typeId = typeIdFunction) (positive : 0 < block.start) (mem : Memory) :
    heap.children mem location =
      fieldRef mem (block.start + layout.attrDict) ++ fieldRef mem (block.start + layout.annotations) ++
        tables.visitFunctionGcRefs block.start moduleAttrs := by
  unfold HeapState.children HeapState.traceObject
  rw [found]
  dsimp only
  rw [isType, info]
  exact if_neg positive.ne'

/-- Without an annotate function, the type reports what the tables hold. -/
theorem Process.Inv.traced (inv : process.Inv layout)
    (found : process.machine.world.heap.blockAt location = some block)
    (isType : block.typeId = typeIdFunction) {held : ℕ}
    (member : held ∈ process.tables.heldObjects block.start) :
    held ∈ process.machine.world.heap.children process.machine.world.mem location := by
  rw [children_function inv.typeInfo found isType (inv.reached.inv.sound.valid.start_pos found)]
  rw [SideTables.heldObjects, inv.unannotated block.start, Option.map_none, Option.toList_none,
    List.append_nil] at member
  refine List.mem_append_right _ ?_
  rw [SideTables.visitFunctionGcRefs]
  exact List.mem_append_left _ member

theorem Process.Inv.faithful (inv : process.Inv layout) : process.Faithful where
  owned block allocated _ := by
    obtain clear | ⟨-, -, -, -, -, owned⟩ := inv.entries block.start
    · exact clear.ownedBy _
    · exact owned
  traced _ _ found isType _ member := inv.traced found isType member
  kept roots block reach isType held member object allocated contains := by
    have sound := inv.reached.inv.sound
    obtain ⟨location, found, reached⟩ := reach
    obtain ⟨location', found'⟩ := allocated
    have resolved : process.machine.world.heap.classifyPointer held = some location' :=
      sound.valid.classifyPointer_eq_some.mpr ⟨object, found', contains⟩
    have reached' : process.machine.world.Reaches
        (roots ++ process.machine.world.heap.pendingFinalizerRoots) location' :=
      Graph.Reach.mono (fun _ ↦ List.mem_append_left _)
        (.step reached (inv.traced found isType member) resolved)
    have survives := (sound.collectLocked roots).keeps_reachable sound ⟨location', found', reached'⟩
    exact ⟨_, survives, rfl, rfl, rfl⟩

/-- In every run that sets no annotate function and registers nothing for a function whose finalizer has
returned, the side tables are faithful. -/
theorem side_tables_faithful {process : Process} (reached : process.SettledReached layout objects) :
    process.Faithful := reached.inv.faithful

/-! ## Allocating a function -/

/-- A function can be allocated at an address that the system may return, and its memory is zeroed. -/
theorem Process.Inv.exists_alloc (inv : process.Inv layout) {fresh : ℕ}
    (isFresh : process.machine.Fresh (requestLayout layout.size) fresh) :
    ∃ machine location block,
      Gc.Step process.machine (.alloc layout.size typeIdFunction fresh) machine ∧
        Allocates layout.size typeIdFunction fresh process.machine.world machine.world location block ∧
        machine.frames = process.machine.frames := by
  obtain ⟨world, location, block, allocates, returns, -⟩ :=
    inv.reached.inv.sound.alloc inv.typeInfo isFresh.forHeap
  exact ⟨_, location, block, .alloc isFresh (returns 0), allocates, rfl⟩

end Install

/-! ## Runs -/

/-- A function of 160 bytes. -/
def smallLayout : FunctionLayout where
  size := 160
  annotations := 72
  attrDict := 152
  annotations_le := by decide
  attrDict_le := by decide

/-- No object has the storage of a tuple or a dict, and all are functions. -/
def functionObjects : Objects where
  none := 16
  hasTupleStorage _ := false
  hasDictStorage _ := false
  isFunctionObject _ := true

def initialProcess : Process :=
  Process.install smallLayout
    { machine := Machine.init fun _ ↦ 0, tables := .empty, moduleAttrs := fun _ ↦ none } .empty
    fun _ ↦ none

theorem initial_initialProcess : Process.Initial smallLayout initialProcess := ⟨_, _, rfl⟩

theorem fresh_initialProcess : initialProcess.machine.Fresh (requestLayout smallLayout.size) 65536 :=
  ⟨by decide, by decide, List.forall_mem_nil _⟩

/-- A function is allocated and marked as a native one. -/
theorem side_tables_faithful_native : ∃ (process : Process) (block : Block),
    process.SettledReached smallLayout functionObjects ∧
      process.machine.world.heap.Allocated block ∧ block.typeId = typeIdFunction ∧
      process.tables.nativeFunctions block.start ≠ none ∧ process.Faithful := by
  have inv := Process.inv_initial initial_initialProcess
  obtain ⟨machine, location, block, step, allocates, -⟩ := inv.exists_alloc fresh_initialProcess
  have allocated : machine.world.heap.Allocated block := (allocates.allocated_iff block).mpr (Or.inl rfl)
  have afterAlloc : Process.SettledReached smallLayout functionObjects
      { initialProcess with machine } :=
    .next (a := .heap (.alloc smallLayout.size typeIdFunction 65536)) (.start initial_initialProcess)
      trivial (.heap step nofun nofun)
  have settled : Process.Settled { initialProcess with machine } (.register block.start .nativeFunction) := by
    refine ⟨nofun, fun other allocated' isStart ↦ Or.inl ?_⟩
    have same : other = block := allocates.sound.valid.allocated_unique allocated' allocated isStart
    rw [same]
    exact allocates.not_finalized
  have marked := Transition.Reachable.next afterAlloc settled (.register allocated allocates.typeId_eq)
  refine ⟨_, block, marked, allocated, allocates.typeId_eq, ?_, side_tables_faithful marked⟩
  change Function.update SideTables.empty.nativeFunctions block.start
    (some ⟨(), generation machine.log block.start⟩) block.start ≠ none
  rw [Function.update_self]
  exact nofun

/-- A function whose annotate function nothing else refers to. -/
theorem annotate_untraced : ¬∀ process, Process.Reached smallLayout functionObjects process →
    process.Faithful := by
  intro faithful
  have inv := Process.inv_initial initial_initialProcess
  obtain ⟨machine, location, annotate, step, allocates, frames⟩ := inv.exists_alloc fresh_initialProcess
  have inv' : Process.Inv smallLayout { initialProcess with machine } := inv.heap step nofun nofun
  have isFresh : machine.Fresh (requestLayout smallLayout.size) 131072 := by
    refine ⟨by decide, by decide, fun region member ↦ ?_⟩
    have inside : region ∈ machine.world.heap.regions := by
      obtain member | member := List.mem_append.mp member
      · exact member
      · rw [frames] at member
        exact nomatch member
    obtain regions | regions := allocates.regions
    · exact nomatch regions.mem_iff.mp inside
    · obtain rfl | member := List.mem_cons.mp (regions.mem_iff.mp inside)
      · exact Or.inr (by decide)
      · exact nomatch member
  obtain ⟨machine', location', function, step', allocates', -⟩ := inv'.exists_alloc isFresh
  have found : machine'.world.heap.blockAt location' = some function := by
    rw [allocates'.blocks, if_pos rfl]
  have run : Process.Reached smallLayout functionObjects { initialProcess with machine := machine' } :=
    .next (a := .heap (.alloc smallLayout.size typeIdFunction 131072))
      (.next (a := .heap (.alloc smallLayout.size typeIdFunction 65536)) (.start initial_initialProcess)
        trivial (.heap step nofun nofun))
      trivial (.heap step' nofun nofun)
  have set := Transition.Reachable.next run trivial
    (@Process.Step.register smallLayout functionObjects _ function (.functionAnnotate annotate.start)
      ⟨location', found⟩ allocates'.typeId_eq)
  have positive := allocates'.sound.valid.start_pos found
  have annotatePositive : 0 < annotate.start :=
    allocates.sound.valid.start_pos ((allocates.blocks location).trans (if_pos rfl))
  have tables : SideTables.empty.register functionObjects (generation machine'.log function.start)
      function.start (.functionAnnotate annotate.start) =
        { SideTables.empty with
          annotateFunctions := Function.update SideTables.empty.annotateFunctions function.start
            (some ⟨annotate.start, generation machine'.log function.start⟩) } := by
    unfold SideTables.register SideTables.setFunctionAnnotate
    dsimp only
    rw [if_neg positive.ne', if_neg annotatePositive.ne']
    rfl
  have held : annotate.start ∈ SideTables.heldObjects
      (SideTables.empty.register functionObjects (generation machine'.log function.start) function.start
        (.functionAnnotate annotate.start)) function.start := by
    rw [tables, SideTables.heldObjects]
    dsimp only
    rw [Function.update_self]
    exact List.mem_append_right _ List.mem_cons_self
  -- The fields of the new function are zero, and the tables hold nothing else for it.
  have field {offset : ℕ} (inside : offset + 8 ≤ 160) :
      fieldRef machine'.world.mem (function.start + offset) = [] := by
    have zero (i : ℕ) (small : i < 8) : machine'.world.mem (function.start + offset + i) = 0 := by
      have size := allocates'.size_le
      change 160 ≤ function.size at size
      refine allocates'.zero _ ⟨?_, ?_⟩ <;> omega
    have word : readWord machine'.world.mem (function.start + offset) = 0 := by
      refine List.sum_eq_zero fun digit member ↦ ?_
      obtain ⟨i, inRange, rfl⟩ := List.mem_map.mp member
      rw [zero i (List.mem_range.mp inRange)]
      exact Nat.zero_mul _
    exact if_pos word
  have member := (faithful _ set).traced location' function found allocates'.typeId_eq annotate.start held
  have info := @typeInfo_install smallLayout { initialProcess with machine := machine' }
    (SideTables.empty.register functionObjects (generation machine'.log function.start) function.start
      (.functionAnnotate annotate.start)) fun _ ↦ none
  have children := children_function info found allocates'.typeId_eq positive machine'.world.mem
  have reported : annotate.start ∈ fieldRef machine'.world.mem (function.start + 152) ++
    fieldRef machine'.world.mem (function.start + 72) ++ SideTables.visitFunctionGcRefs
      (SideTables.empty.register functionObjects (generation machine'.log function.start) function.start
        (.functionAnnotate annotate.start)) function.start fun _ ↦ none :=
    (congrArg (annotate.start ∈ ·) children).mp member
  rw [field (by decide), field (by decide), tables] at reported
  exact nomatch reported

end Pon.Metadata
