import Mathlib.Data.List.Dedup
import Mathlib.Data.List.Sort
import Pon.Lib.Transition

/-!
# Critical sections of the runtime

Each thread keeps a stack of critical-section frames; a frame lists the per-object locks that the
section asked for. A nested section that needs a lock which is not active suspends every active
guard of the thread, takes the requested locks in address order, and gives the suspended guards back
when it ends.

A thread runs `push_critical_section` and `pop_critical_section` as a sequence of atomic steps, one
for each blocking acquisition; the unlocks never block and are taken together with the thread-local
step that issues them. A mutex is locked exactly while some thread holds a guard for it, so the
lock table is not a component of the state.

The guard that `restore_suspended_locks` re-acquires goes to the lowest frame with a matching
owned entry. That is the frame it was taken from unless a lower frame has the same key suspended,
and the results below are about the runs in which no suspending section is entered in such a state.
-/

namespace Pon.CriticalSection

open Pon.Transition

/-- One lock entry of a frame; `guard` records whether the mutex guard is present. -/
structure HeldCriticalLock where
  key : ℕ
  owns : Bool
  guard : Bool
deriving DecidableEq, Repr

structure CriticalSectionFrame where
  locks : List HeldCriticalLock
  suspended : List ℕ
deriving DecidableEq, Repr

/-- The thread-local frame vector, outermost frame first. -/
abbrev Stack := List CriticalSectionFrame

def orderedKeys (keys : List ℕ) : List ℕ :=
  (keys.insertionSort (· ≤ ·)).dedup

/-- The entry owns its mutex and holds the guard. -/
def HeldCriticalLock.active (lock : HeldCriticalLock) : Bool :=
  lock.owns && lock.guard

/-- Keys of the active entries, in the order in which the frames are walked. -/
def walkActiveKeys (stack : Stack) : List ℕ :=
  stack.flatMap fun frame ↦ (frame.locks.filter HeldCriticalLock.active).map HeldCriticalLock.key

def activeLockKeys (stack : Stack) : List ℕ :=
  orderedKeys (walkActiveKeys stack)

/-- Drop the guard of an active entry whose key is not in `kept`. -/
def HeldCriticalLock.keep (kept : List ℕ) (lock : HeldCriticalLock) : HeldCriticalLock :=
  if lock.active && !kept.contains lock.key then { lock with guard := false } else lock

def keepGuards (kept : List ℕ) (stack : Stack) : Stack :=
  stack.map fun frame ↦ { frame with locks := frame.locks.map (HeldCriticalLock.keep kept) }

/-- Take the guard of every active entry and report the keys in address order. -/
def suspendActiveLocks (stack : Stack) : Stack × List ℕ :=
  (keepGuards [] stack, orderedKeys (walkActiveKeys stack))

/-- Hand a guard to the first entry of a frame that owns `key` without holding it. -/
def giveLock (key : ℕ) : List HeldCriticalLock → Option (List HeldCriticalLock)
  | [] => none
  | lock :: rest =>
    if lock.key == key && lock.owns && !lock.guard then some ({ lock with guard := true } :: rest)
    else (giveLock key rest).map (lock :: ·)

/-- One round of `restore_suspended_locks`: the frames are searched from the outermost one. -/
def giveGuard (key : ℕ) : Stack → Stack
  | [] => []
  | frame :: rest =>
    match giveLock key frame.locks with
    | some locks => { frame with locks := locks } :: rest
    | none => frame :: giveGuard key rest

/-- Progress of the call that a thread is executing. -/
inductive Phase
  | idle
  | acquiring (activeKeys suspended todo : List ℕ) (locks : List HeldCriticalLock)
  | restoring (todo : List ℕ)
deriving DecidableEq, Repr

/-- A thread. `saved` is ghost state: the frame vector just before each push whose section is
still open, innermost first. -/
structure Thread where
  stack : Stack
  phase : Phase
  saved : List Stack
deriving DecidableEq, Repr

inductive Act
  | push (keys : List ℕ)
  | pop
  | advance
deriving DecidableEq, Repr

def allActive (stack : Stack) (keys : List ℕ) : Bool :=
  keys.all fun key ↦ (activeLockKeys stack).contains key

/-- Whether entering a section on `keys` suspends the guards of the enclosing sections. -/
def suspends (stack : Stack) (keys : List ℕ) : Bool :=
  !(stack.isEmpty || allActive stack keys)

variable (thread : Thread)

/-- The part of `push_critical_section` before the first lock. -/
def Thread.beginPush (keys : List ℕ) : Thread :=
  let entered := if suspends thread.stack keys then suspendActiveLocks thread.stack else (thread.stack, [])
  { stack := entered.1
    phase := .acquiring (activeLockKeys thread.stack) entered.2 keys []
    saved := thread.stack :: thread.saved }

/-- Pop the innermost frame and drop its guards. -/
def Thread.beginPop : Option Thread :=
  thread.stack.getLast?.map fun frame ↦
    { thread with stack := thread.stack.dropLast, phase := .restoring frame.suspended }

/-- The mutex that the next step of the running call locks. -/
def Thread.nextLock : Option ℕ :=
  match thread.phase with
  | .acquiring activeKeys suspended (key :: _) _ =>
    if suspended.isEmpty && activeKeys.contains key then none else some key
  | .restoring (key :: _) => some key
  | _ => none

/-- One atomic step of the running call, once its mutex is available. -/
def Thread.advance : Option Thread :=
  match thread.phase with
  | .idle => none
  | .acquiring activeKeys suspended (key :: todo) locks =>
    let owned := !(suspended.isEmpty && activeKeys.contains key)
    some { thread with
      phase := .acquiring activeKeys suspended todo (locks ++ [⟨key, owned, owned⟩]) }
  | .acquiring _ suspended [] locks =>
    some { thread with stack := thread.stack ++ [⟨locks, suspended⟩], phase := .idle }
  | .restoring (key :: todo) =>
    some { thread with stack := giveGuard key thread.stack, phase := .restoring todo }
  | .restoring [] => some { thread with phase := .idle, saved := thread.saved.tail }

def Thread.next (act : Act) : Option Thread :=
  match act with
  | .push keys => if thread.phase = .idle then some (thread.beginPush (orderedKeys keys)) else none
  | .pop => if thread.phase = .idle then thread.beginPop else none
  | .advance => thread.advance

/-- Keys of every guard that the thread holds, in its frames or in the frame being built. -/
def Thread.heldKeys : List ℕ :=
  ((thread.stack.flatMap CriticalSectionFrame.locks ++
    match thread.phase with
    | .acquiring _ _ _ locks => locks
    | _ => []).filter HeldCriticalLock.guard).map HeldCriticalLock.key

/-- Any number of threads. -/
abbrev System (T : Type*) := T → Thread

def initial {T : Type*} (system : System T) : Prop :=
  ∀ t, system t = ⟨[], .idle, []⟩

/-- One thread moves; a lock is taken only while no thread holds a guard for it. -/
def Step {T : Type*} [DecidableEq T] (system : System T) (label : T × Act) (system' : System T) :
    Prop :=
  ∃ thread, (system label.1).next label.2 = some thread ∧
    (label.2 = .advance →
      ∀ key, (system label.1).nextLock = some key → ∀ t, key ∉ (system t).heldKeys) ∧
    system' = Function.update system label.1 thread

/-- Some active key of a frame is owned, but suspended, in a frame further out. -/
def shadowed : Stack → Bool
  | [] => false
  | frame :: rest =>
    frame.locks.any (fun lock ↦ lock.owns && !lock.guard && (activeLockKeys rest).contains lock.key) ||
      shadowed rest

/-- No suspending section is entered while an active key is shadowed. -/
def EntersUnshadowed {T : Type*} (system : System T) (label : T × Act) : Prop :=
  ∀ keys, label.2 = .push keys →
    suspends (system label.1).stack (orderedKeys keys) = true → shadowed (system label.1).stack = false

/-- Thread `t` waits for a lock that thread `t'` holds. -/
def WaitsFor {T : Type*} (system : System T) (t t' : T) : Prop :=
  ∃ key, (system t).nextLock = some key ∧ key ∈ (system t').heldKeys

end Pon.CriticalSection
