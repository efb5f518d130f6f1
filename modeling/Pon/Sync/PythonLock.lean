import Pon.Sync.StopTheWorld

/-!
# Python locks and the collector

A `Lock`, an `RLock` and a thread handle are small records behind an inner mutex with a condition
variable. An operation locks the inner mutex, and while it has to wait it enters a blocking region
and waits on the condition variable; the wait gives the mutex back and locks it again on wake-up,
and only then the region is left. Leaving the region polls, so a thread can park for a collection
with the inner mutex in its hands.

The operations run on top of the threads of the handshake. A waiting thread may wake up at any time:
a condition variable wakes up spuriously, and the deadline of a timed wait may pass.
-/

namespace Pon.PythonLock

open Pon.Transition StopTheWorld

/-- The data behind an inner mutex; `none` is the ident 0 of an unowned `RLock`. -/
inductive Inner (T : Type*)
  | lock (locked : Bool)
  | rlock (owner : Option T) (count : ℕ)
  | handle (ident : ℤ) (done : Bool)
deriving DecidableEq, Repr

inductive Op
  | acquire
  | tryAcquire
  | acquireTimeout
  | isLocked
  | release
  | atForkReinit
  | rlockAcquire
  | rlockRelease
  | rlockIsOwned
  | rlockIsLocked
  | join (timeout : Bool)
  | setDone
  | isDone
  | ident
  | setIdent (ident : ℤ)
deriving DecidableEq, Repr

inductive Result
  | unit
  | bool (value : Bool)
  | ident (value : ℤ)
  | error (message : String)
deriving DecidableEq, Repr

/-- What an operation does when it has the inner mutex. -/
inductive Body (T : Type*)
  | wait
  | finish (inner : Inner T) (result : Result)
deriving DecidableEq, Repr

variable {T : Type*} [DecidableEq T]

/-- The code of an operation of thread `me` up to its next wait; `again` after a wait, `expired` when
the deadline has passed. -/
def Op.body (me : T) (again expired : Bool) : Op → Inner T → Option (Body T)
  | .acquire, .lock locked =>
    some (if locked then .wait else .finish (.lock true) .unit)
  | .tryAcquire, .lock locked => some (.finish (.lock true) (.bool !locked))
  | .acquireTimeout, .lock locked =>
    some <|
      if locked then
        if expired then .finish (.lock locked) (.bool false) else .wait
      else
        .finish (.lock true) (.bool true)
  | .isLocked, .lock locked => some (.finish (.lock locked) (.bool locked))
  | .release, .lock locked =>
    some <|
      if locked then
        .finish (.lock false) .unit
      else
        .finish (.lock locked) (.error "release unlocked lock")
  | .atForkReinit, .lock _ => some (.finish (.lock false) .unit)
  | .rlockAcquire, .rlock owner count =>
    some <|
      if !again && owner = some me then
        .finish (.rlock owner (count + 1)) .unit
      else if count ≠ 0 then
        .wait
      else
        .finish (.rlock (some me) 1) .unit
  | .rlockRelease, .rlock owner count =>
    some <|
      if count = 0 ∨ owner ≠ some me then
        .finish (.rlock owner count) (.error "cannot release un-acquired lock")
      else if count - 1 = 0 then
        .finish (.rlock none 0) .unit
      else
        .finish (.rlock owner (count - 1)) .unit
  | .rlockIsOwned, .rlock owner count =>
    some (.finish (.rlock owner count) (.bool (count ≠ 0 && owner = some me)))
  | .rlockIsLocked, .rlock owner count => some (.finish (.rlock owner count) (.bool (count ≠ 0)))
  | .join timeout, .handle value done =>
    some (if done || (timeout && expired) then .finish (.handle value done) .unit else .wait)
  | .setDone, .handle value _ => some (.finish (.handle value true) .unit)
  | .isDone, .handle value done => some (.finish (.handle value done) (.bool done))
  | .ident, .handle value done => some (.finish (.handle value done) (.ident value))
  | .setIdent value, .handle _ done => some (.finish (.handle value done) .unit)
  | _, _ => none

/-- Where the code of an operation stands. -/
inductive Stage
  | locking
  /-- Holds the mutex. -/
  | body (again : Bool)
  /-- Holds the mutex and enters the region. -/
  | entering
  /-- Holds the mutex, in the region. -/
  | releasing
  | waiting
  /-- Woken up, in the region. -/
  | relocking
  /-- Holds the mutex and leaves the region. -/
  | leaving
  /-- Holds the mutex, after the poll of `leave_blocking_region`. -/
  | left
deriving DecidableEq, Repr

/-- The frame of the thread on which the code of the stage runs. -/
def Stage.frame (T : Type*) : Stage → Frame T
  | .releasing | .waiting | .relocking | .leaving => .blocking
  | _ => .mutator

/-- An operation in progress; `level` is the number of frames of the thread at which its own code
runs, so a larger number means that a call it made has not returned. -/
structure OpFrame (L : Type*) where
  op : Op
  object : L
  stage : Stage
  level : ℕ
deriving DecidableEq, Repr

structure InnerMutex (T : Type*) where
  holder : Option T
  data : Inner T
deriving DecidableEq, Repr

structure State (T L : Type*) where
  gc : StopTheWorld.State T
  /-- The operations that a thread is executing, innermost first. -/
  ops : T → List (OpFrame L)
  mutex : L → InnerMutex T
  /-- What the last operation of the thread returned. -/
  returned : T → Option Result

variable {L : Type*} [DecidableEq L] (s : State T L)

def State.frames (t : T) : List (Frame T) :=
  (s.gc.thread t).frames

/-- The thread executes the code of its innermost operation. -/
def State.inOp (t : T) : Bool :=
  match s.ops t with
  | [] => false
  | frame :: _ => frame.level = (s.frames t).length

def State.setOps (t : T) (ops : List (OpFrame L)) : State T L :=
  { s with ops := Function.update s.ops t ops }

def State.setHolder (object : L) (holder : Option T) : State T L :=
  { s with mutex := Function.update s.mutex object { s.mutex object with holder } }

inductive Act (L : Type*)
  /-- A step of the handshake. -/
  | gc (act : StopTheWorld.Act)
  | call (op : Op) (object : L)
  /-- The next step of the innermost operation. -/
  | run (expired : Bool)
deriving DecidableEq, Repr

/-- The next step of an operation that thread `t` executes above `rest`. -/
def runOp (main : T) (s : State T L) (t : T) (expired : Bool) (frame : OpFrame L)
    (rest : List (OpFrame L)) : Option (State T L) :=
  let object := frame.object
  match frame.stage with
  | .locking =>
    if (s.mutex object).holder = none then
      some ((s.setHolder object (some t)).setOps t ({ frame with stage := .body false } :: rest))
    else
      none
  | .body again =>
    match frame.op.body t again expired (s.mutex object).data with
    | none => none
    | some .wait => some (s.setOps t ({ frame with stage := .entering } :: rest))
    | some (.finish data result) =>
      some { s.setOps t rest with
        mutex := Function.update s.mutex object { holder := none, data }
        returned := Function.update s.returned t (some result) }
  | .entering =>
    (StopTheWorld.step main s.gc t .enterBlocking).map fun gc ↦
      { s.setOps t ({ frame with stage := .releasing, level := frame.level + 1 } :: rest) with gc }
  | .releasing =>
    some ((s.setHolder object none).setOps t ({ frame with stage := .waiting } :: rest))
  | .waiting => some (s.setOps t ({ frame with stage := .relocking } :: rest))
  | .relocking =>
    if (s.mutex object).holder = none then
      some ((s.setHolder object (some t)).setOps t ({ frame with stage := .leaving } :: rest))
    else
      none
  | .leaving =>
    (StopTheWorld.step main s.gc t .leaveBlocking).map fun gc ↦
      { s.setOps t ({ frame with stage := .left, level := frame.level - 1 } :: rest) with gc }
  | .left => some (s.setOps t ({ frame with stage := .body true } :: rest))

/-- One step of thread `t`. While it executes the code of an operation, this code decides. -/
def step (main : T) (s : State T L) (t : T) : Act L → Option (State T L)
  | .gc (.signal signalnum) =>
    (StopTheWorld.step main s.gc t (.signal signalnum)).map fun gc ↦ { s with gc }
  | .gc act =>
    if s.inOp t then
      none
    else
      (StopTheWorld.step main s.gc t act).map fun gc ↦ { s with gc }
  | .call op object =>
    if !s.inOp t && (s.frames t).head? = some .mutator then
      some (s.setOps t (⟨op, object, .locking, (s.frames t).length⟩ :: s.ops t))
    else
      none
  | .run expired =>
    match s.ops t with
    | [] => none
    | frame :: rest =>
      if s.inOp t && (s.frames t).head? = some (frame.stage.frame T) then
        runOp main s t expired frame rest
      else
        none

def Step (main : T) (s : State T L) (label : T × Act L) (s' : State T L) : Prop :=
  step main s label.1 label.2 = some s'

structure Initial (s : State T L) : Prop where
  gc : StopTheWorld.Initial s.gc
  ops : ∀ t, s.ops t = []
  unlocked : ∀ object, (s.mutex object).holder = none

/-- The calls in which a thread stays until the collector resumes it. -/
def parks : Frame T → Bool
  | .poll .entering | .poll .acking | .poll .waiting => true
  | _ => false

/-- The thread parks at a safepoint. -/
def Parked (t : T) : Prop :=
  ∃ frame below, s.frames t = frame :: below ∧ parks frame = true

/-- The collector waits for the other registered threads. -/
def CollectorWaits (c : T) : Prop :=
  ∃ stage below, s.frames c = .collect stage :: below ∧
    (stage = .startPass ∨ ∃ records allStopped, stage = .pass records allStopped)

/-- The thread is blocked on the inner mutex of `object`, outside of every GC-safe region. -/
def BlockedOutside (u : T) (object : L) : Prop :=
  (s.gc.thread u).gcSafeRegionDepth = 0 ∧ s.inOp u = true ∧
    ∃ frame rest, s.ops u = frame :: rest ∧ frame.stage = .locking ∧ frame.object = object ∧
      (s.mutex object).holder ≠ none

/-- A collector waits for a thread that is blocked on an inner mutex whose holder is parked. -/
def Deadlocked : Prop :=
  ∃ c u holder object, CollectorWaits s c ∧ u ≠ c ∧ u ∈ s.gc.registry ∧ BlockedOutside s u object ∧
    (s.mutex object).holder = some holder ∧ Parked s holder

/-- No thread parks at a safepoint while it holds an inner mutex. -/
def NoParkedHolder : Prop :=
  ∀ object holder, (s.mutex object).holder = some holder → ¬ Parked s holder

/-- The thread is on its way out of a wait: the poll of `leave_blocking_region`, or a signal handler that
the poll calls, has not returned. -/
def LeavesWait (t : T) : Prop :=
  ∃ frame ∈ s.ops t, frame.stage = .left ∧ frame.level < (s.frames t).length

/-- A poll on the way out of a wait finds no stop request, unless the thread is the collector. -/
def ReadsNoRequest (label : T × Act L) : Prop :=
  LeavesWait s label.1 → (s.gc.thread label.1).isCollecting = true ∨
    match label.2, s.frames label.1 with
    | .gc .advance, .poll .readFlag :: _ => s.gc.gcStopRequested = false
    | .gc .advance, .poll .readHandshake :: _ => s.gc.handshake.stopRequested = false
    | _, _ => True

end Pon.PythonLock
