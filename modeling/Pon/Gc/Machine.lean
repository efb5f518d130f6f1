import Pon.Gc.Block
import Pon.Lib.Transition

/-!
# Runs of the heap

The heap as the runtime uses it: types are registered, objects are allocated, the mutator writes into
its objects, and collections are started, also from within a finalizer of another collection. A
collection is a step for its part under the lock, one step for each call and return of a finalizer,
and one for its end; in between any other step may happen. The log of a run is a ghost: no operation
reads it.
-/

namespace Pon.Gc

/-- A collection between its sweep and its end. `before` and `roots` are ghosts: the state in which
the cycle was started, and its roots. -/
structure Frame where
  pending : List PendingFinalizer
  todo : List PendingFinalizer
  running : Option PendingFinalizer
  detached : List (ℕ × ℕ)
  before : World
  roots : List ℕ

/-- Entries of a frame whose finalizer has not returned. -/
def Frame.unfinished (frame : Frame) : List PendingFinalizer :=
  frame.running.toList ++ frame.todo

inductive Event
  | alloc (start : ℕ)
  | call (start : ℕ)
  | ret (start : ℕ)
  | release (start size : ℕ)
deriving DecidableEq, Repr

/-- An object was handed out at the address, and its memory has not been released since. -/
def handedOut : List Event → ℕ → Prop
  | [], _ => False
  | .alloc start :: rest, address => start = address ∨ handedOut rest address
  | .release start size :: rest, address => ¬ InRegion (start, size) address ∧ handedOut rest address
  | .call _ :: rest, address => handedOut rest address
  | .ret _ :: rest, address => handedOut rest address

/-- Number of finalizer calls for the address since the last allocation there. -/
def calls : List Event → ℕ → ℕ
  | [], _ => 0
  | .alloc start :: rest, address => if start = address then 0 else calls rest address
  | .call start :: rest, address => calls rest address + if start = address then 1 else 0
  | .ret _ :: rest, address => calls rest address
  | .release _ _ :: rest, address => calls rest address

structure Machine where
  world : World
  frames : List Frame
  /-- Newest event first. -/
  log : List Event

variable (m : Machine)

/-- A finalizer is queued or running for the object at `start`. -/
def Machine.Queued (start : ℕ) : Prop :=
  ∃ frame ∈ m.frames, ∃ entry ∈ frame.unfinished, entry.start = start

/-- Memory regions, start and size, that the heap has obtained from the system and not released. -/
def Machine.held : List (ℕ × ℕ) :=
  m.world.heap.regions ++ m.frames.flatMap Frame.detached

/-- What the system allocator may return for a layout: a non-null, aligned address of memory that the
heap does not hold. -/
structure Machine.Fresh (m : Machine) (layout : ℕ × ℕ) (address : ℕ) : Prop where
  pos : 0 < address
  aligned : layout.2 ∣ address
  disjoint : ∀ region ∈ m.held, DisjointRegions (address, layout.1) region

/-- The mutator changes memory only inside its blocks, and the rest of the process only memory that
the heap does not hold. -/
def Machine.MayWrite (mem : Memory) : Prop :=
  ∀ address, mem address ≠ m.world.mem address →
    (∃ block, m.world.heap.Allocated block ∧ block.Contains address) ∨
      ∀ region ∈ m.held, ¬ InRegion region address

inductive Act
  | register (typeId : ℕ) (info : GcTypeInfo)
  | alloc (size typeId fresh : ℕ)
  | write (mem : Memory)
  | collect (roots : List ℕ)
  | callFinalizer (frame : ℕ)
  | returnFinalizer (frame : ℕ)
  | finish (frame : ℕ)

def Machine.init (mem : Memory) : Machine where
  world := { heap := HeapState.new, mem }
  frames := []
  log := []

/-- The machine after the locked part of a collection. -/
def Machine.collect (roots : List ℕ) : Machine :=
  let cycle := m.world.heap.collectLocked m.world.mem roots
  { m with
    world := { m.world with heap := cycle.heap }
    frames :=
      { pending := cycle.pending, todo := cycle.pending, running := none,
        detached := cycle.detached, before := m.world, roots } :: m.frames }

theorem Machine.collect_world (roots : List ℕ) : (m.collect roots).world =
      { m.world with heap := (m.world.heap.collectLocked m.world.mem roots).heap } :=
  rfl

/-- The machine after the end of a collection: its blocks are rooted no longer and the detached memory
is released. -/
def Machine.finish (index : ℕ) (frame : Frame) : Machine :=
  { world :=
      { m.world with
        heap := (frame.pending.map PendingFinalizer.start).foldl HeapState.forgetPending m.world.heap }
    frames := m.frames.eraseIdx index
    log := frame.detached.map (fun region ↦ Event.release region.1 region.2) ++ m.log }

inductive Step : Machine → Act → Machine → Prop
  | register {m : Machine} {typeId : ℕ} {info : GcTypeInfo} {heap : HeapState} :
      m.world.heap.registerType typeId info = some heap →
      Step m (.register typeId info) { m with world.heap := heap }
  | alloc {m : Machine} {size typeId fresh rounds start : ℕ} {w : World} :
      m.Fresh (requestLayout size) fresh →
      m.world.alloc rounds size typeId fresh = some (w, start) →
      Step m (.alloc size typeId fresh) { m with world := w, log := .alloc start :: m.log }
  | write {m : Machine} {mem : Memory} :
      m.MayWrite mem → Step m (.write mem) { m with world.mem := mem }
  | collect {m : Machine} {roots : List ℕ} :
      Step m (.collect roots) (m.collect roots)
  | callFinalizer {m : Machine} {index : ℕ} {frame : Frame} {entry : PendingFinalizer}
      {rest : List PendingFinalizer} :
      m.frames[index]? = some frame → frame.running = none → frame.todo = entry :: rest →
      Step m (.callFinalizer index)
        { m with
          frames := m.frames.set index { frame with running := some entry, todo := rest }
          log := .call entry.start :: m.log }
  | returnFinalizer {m : Machine} {index : ℕ} {frame : Frame} {entry : PendingFinalizer} :
      m.frames[index]? = some frame → frame.running = some entry →
      Step m (.returnFinalizer index)
        { m with
          frames := m.frames.set index { frame with running := none }
          log := .ret entry.start :: m.log }
  | finish {m : Machine} {index : ℕ} {frame : Frame} :
      m.frames[index]? = some frame → frame.running = none → frame.todo = [] →
      Step m (.finish index) (m.finish index frame)

/-- The states of the runs of the heap from an empty one. -/
def Reached : Prop :=
  Transition.Reachable (fun m ↦ ∃ mem, m = Machine.init mem) (fun _ _ ↦ True) Step m

end Pon.Gc
