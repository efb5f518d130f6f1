import Mathlib.Data.Nat.Init
import Mathlib.Logic.Function.Basic
import Pon.Lib.Transition

/-!
# The stop-the-world handshake

A collector sets a global stop flag, sets the stop request of the handshake, and scans the registry
until one pass finds every other thread in a GC-safe region; then it collects, and at the end it
clears both. A mutator looks at the flags when it polls: at a safepoint of generated code and on the
way out of a blocking region. The poll first runs pending signal handlers, then parks the thread in
a GC-safe region until the request of the handshake is cleared.

A thread is the stack of the calls it is executing, innermost first, together with its region
counter. Each read or write of shared data is one step; a mutex that is held blocks the step that
takes it. The counter is a natural number: a level of nesting takes stack space, so it does not
saturate.
-/

namespace Pon.StopTheWorld

open Pon.Transition

inductive GcPhase
  | idle
  | stopRequested
  | stopped
  | collecting
deriving DecidableEq, Repr

structure GcHandshake where
  phase : GcPhase
  stopRequested : Bool
deriving DecidableEq, Repr

namespace GcHandshake

def new : GcHandshake where
  phase := .idle
  stopRequested := false

def requestStop (_ : GcHandshake) : GcHandshake where
  phase := .stopRequested
  stopRequested := true

def ackStop (handshake : GcHandshake) : GcHandshake :=
  if handshake.stopRequested && handshake.phase = .stopRequested then
    { handshake with phase := .stopped }
  else
    handshake

def resume (_ : GcHandshake) : GcHandshake where
  phase := .idle
  stopRequested := false

def setPhase (handshake : GcHandshake) (phase : GcPhase) : GcHandshake :=
  { handshake with phase }

@[simp]
theorem ackStop_stopRequested (handshake : GcHandshake) :
    handshake.ackStop.stopRequested = handshake.stopRequested := by
  unfold ackStop
  split <;> rfl

end GcHandshake

/-- Where a call of `safepoint_poll` stands. -/
inductive Poll
  | signals
  /-- The taken signals whose handlers are still to run. -/
  | handling (signals : List ℕ)
  | readFlag
  | readHandshake
  | entering
  | acking
  | waiting
  | leaving
deriving DecidableEq, Repr

/-- Where a call of `collect` stands. -/
inductive Collect (T : Type*)
  | tryLock
  | enterBlocking
  | blocked
  | leaveBlocked
  | requestFlag
  | requestHandshake
  | startPass
  /-- The records of the running pass that are still to read, and `all_stopped`. -/
  | pass (records : List T) (allStopped : Bool)
  | gathering
  | collecting
  | resumeFlag
  | resumeHandshake
  | unlock
deriving DecidableEq, Repr

/-- One call on the stack of a thread. -/
inductive Frame (T : Type*)
  /-- Python code, allocation and heap writes. -/
  | mutator
  /-- A native wait between `enter_blocking_region` and `leave_blocking_region`. -/
  | blocking
  /-- A native wait between `pon_gc_safe_region_enter` and `pon_gc_safe_region_leave`. -/
  | safe
  | poll (stage : Poll)
  | collect (stage : Collect T)
deriving DecidableEq, Repr

structure Thread (T : Type*) where
  frames : List (Frame T)
  gcSafeRegionDepth : ℕ
deriving DecidableEq, Repr

/-- `current_thread_is_collecting`. -/
def Thread.isCollecting {T : Type*} [DecidableEq T] (thread : Thread T) : Bool :=
  thread.frames.contains (.collect .collecting)

structure State (T : Type*) where
  /-- `GC_STOP_REQUESTED`. -/
  gcStopRequested : Bool
  handshake : GcHandshake
  collectMutex : Option T
  registry : List T
  pendingSignals : List ℕ
  thread : T → Thread T

variable {T : Type*}

/-- `gc_stop_requested`, when both loads happen together. -/
def State.stopRequested (s : State T) : Bool :=
  s.gcStopRequested || s.handshake.stopRequested

section Steps

variable [DecidableEq T]

def State.setFrames (s : State T) (t : T) (frames : List (Frame T)) : State T :=
  { s with thread := Function.update s.thread t { s.thread t with frames } }

/-- `enter_gc_safe_region`, with the frames of the thread afterwards. -/
def State.enterRegion (s : State T) (t : T) (frames : List (Frame T)) : State T :=
  let gcSafeRegionDepth := (s.thread t).gcSafeRegionDepth + 1
  { s with thread := Function.update s.thread t { frames, gcSafeRegionDepth } }

/-- `leave_gc_safe_region`, with the frames of the thread afterwards. -/
def State.leaveRegion (s : State T) (t : T) (frames : List (Frame T)) : State T :=
  let gcSafeRegionDepth := (s.thread t).gcSafeRegionDepth - 1
  { s with thread := Function.update s.thread t { frames, gcSafeRegionDepth } }

/-- The next step of `safepoint_poll`, called from `below`. Signals are handled by thread `main`. -/
def advancePoll (main : T) (s : State T) (t : T) (below : List (Frame T)) :
    Poll → Option (State T)
  | .signals =>
    if s.pendingSignals ≠ [] ∧ t = main then
      some { s.setFrames t (.poll (.handling s.pendingSignals) :: below) with pendingSignals := [] }
    else
      some (s.setFrames t (.poll .readFlag :: below))
  | .handling [] => some (s.setFrames t (.poll .readFlag :: below))
  | .handling (_ :: _) => none
  | .readFlag =>
    if s.gcStopRequested then
      if (s.thread t).isCollecting then
        some (s.setFrames t below)
      else
        some (s.setFrames t (.poll .entering :: below))
    else
      some (s.setFrames t (.poll .readHandshake :: below))
  | .readHandshake =>
    if s.handshake.stopRequested && !(s.thread t).isCollecting then
      some (s.setFrames t (.poll .entering :: below))
    else
      some (s.setFrames t below)
  | .entering => some (s.enterRegion t (.poll .acking :: below))
  | .acking =>
    some { s.setFrames t (.poll .waiting :: below) with handshake := s.handshake.ackStop }
  | .waiting =>
    if s.handshake.stopRequested then
      none
    else
      some (s.setFrames t (.poll .leaving :: below))
  | .leaving => some (s.leaveRegion t below)

/-- The next step of `collect`, called from `below`. -/
def advanceCollect (s : State T) (t : T) (below : List (Frame T)) :
    Collect T → Option (State T)
  | .tryLock =>
    if s.collectMutex = none then
      some { s.setFrames t (.collect .requestFlag :: below) with collectMutex := some t }
    else
      some (s.setFrames t (.collect .enterBlocking :: below))
  | .enterBlocking => some (s.enterRegion t (.collect .blocked :: below))
  | .blocked =>
    if s.collectMutex = none then
      some { s.setFrames t (.collect .leaveBlocked :: below) with collectMutex := some t }
    else
      none
  | .leaveBlocked => some (s.leaveRegion t (.poll .signals :: .collect .requestFlag :: below))
  | .requestFlag =>
    some { s.setFrames t (.collect .requestHandshake :: below) with gcStopRequested := true }
  | .requestHandshake =>
    some { s.setFrames t (.collect .startPass :: below) with
      handshake := s.handshake.requestStop }
  | .startPass => some (s.setFrames t (.collect (.pass s.registry true) :: below))
  | .pass (record :: records) allStopped =>
    let stopped := record = t || (s.thread record).gcSafeRegionDepth ≠ 0
    some (s.setFrames t (.collect (.pass records (allStopped && stopped)) :: below))
  | .pass [] true => some (s.setFrames t (.collect .gathering :: below))
  -- The collector sleeps and starts over.
  | .pass [] false => some (s.setFrames t (.collect .startPass :: below))
  | .gathering =>
    some { s.setFrames t (.collect .collecting :: below) with
      handshake := s.handshake.setPhase .collecting }
  | .collecting => some (s.setFrames t (.collect .resumeFlag :: below))
  | .resumeFlag =>
    some { s.setFrames t (.collect .resumeHandshake :: below) with gcStopRequested := false }
  | .resumeHandshake =>
    some { s.setFrames t (.collect .unlock :: below) with handshake := s.handshake.resume }
  | .unlock => some { s.setFrames t below with collectMutex := none }

/-- What a thread, or the operating system on its behalf, does in one step. -/
inductive Act
  /-- Generated code reaches a safepoint. -/
  | poll
  | enterBlocking
  | leaveBlocking
  | enterSafe
  | leaveSafe
  | collect
  /-- The next step of the running poll or collection. -/
  | advance
  /-- The Python handler of the next taken signal is called. -/
  | handler
  /-- The next taken signal has no Python handler; it may raise nevertheless. -/
  | noHandler (raises : Bool)
  /-- The collector calls a finalizer. -/
  | finalizer
  /-- A handler or finalizer returns, or raises. -/
  | finish (raises : Bool)
  /-- The runtime is found uninitialized while the roots are gathered. -/
  | abort
  | attach
  | detach
  /-- The operating system delivers a signal. -/
  | signal (signalnum : ℕ)
deriving DecidableEq, Repr

/-- A raising handler gives the signals that were not handled back. -/
def endHandler (s : State T) (t : T) (signals : List ℕ) (below : List (Frame T))
    (raises : Bool) : State T :=
  if raises then
    { s.setFrames t (.poll .readFlag :: below) with
      pendingSignals := s.pendingSignals ++ signals }
  else
    s.setFrames t (.poll (.handling signals) :: below)

/-- One step of thread `t`; `none` when the step is not possible. -/
def step (main : T) (s : State T) (t : T) (act : Act) : Option (State T) :=
  match act, (s.thread t).frames with
  | .poll, .mutator :: below => some (s.setFrames t (.poll .signals :: .mutator :: below))
  | .enterBlocking, .mutator :: below => some (s.enterRegion t (.blocking :: .mutator :: below))
  | .enterBlocking, .blocking :: below => some (s.enterRegion t (.blocking :: .blocking :: below))
  | .enterBlocking, .safe :: below => some (s.enterRegion t (.blocking :: .safe :: below))
  | .leaveBlocking, .blocking :: below => some (s.leaveRegion t (.poll .signals :: below))
  | .enterSafe, .mutator :: below => some (s.enterRegion t (.safe :: .mutator :: below))
  | .enterSafe, .blocking :: below => some (s.enterRegion t (.safe :: .blocking :: below))
  | .enterSafe, .safe :: below => some (s.enterRegion t (.safe :: .safe :: below))
  | .leaveSafe, .safe :: below => some (s.leaveRegion t below)
  | .collect, .mutator :: below => some (s.setFrames t (.collect .tryLock :: .mutator :: below))
  | .advance, .poll stage :: below => advancePoll main s t below stage
  | .advance, .collect stage :: below => advanceCollect s t below stage
  | .handler, .poll (.handling (_ :: signals)) :: below =>
    some (s.setFrames t (.mutator :: .poll (.handling signals) :: below))
  | .noHandler raises, .poll (.handling (_ :: signals)) :: below =>
    some (endHandler s t signals below raises)
  | .finalizer, .collect .collecting :: below =>
    some (s.setFrames t (.mutator :: .collect .collecting :: below))
  | .finish raises, .mutator :: .poll (.handling signals) :: below =>
    some (endHandler s t signals below raises)
  | .finish _, .mutator :: .collect .collecting :: below =>
    some (s.setFrames t (.collect .collecting :: below))
  | .abort, .collect .gathering :: below =>
    some (s.setFrames t (.collect .resumeFlag :: below))
  | .attach, [] =>
    if t ∈ s.registry then
      none
    else
      some { s.setFrames t [.mutator] with registry := s.registry ++ [t] }
  | .detach, [.mutator] =>
    some { s.setFrames t [] with registry := s.registry.erase t }
  | .signal signalnum, _ => some { s with pendingSignals := s.pendingSignals ++ [signalnum] }
  | _, _ => none

/-- What a step of a thread with these calls can do. -/
inductive StepCases (main : T) (s : State T) (t : T) : List (Frame T) → Act → State T → Prop
  | poll {below} : StepCases main s t (.mutator :: below) .poll
      (s.setFrames t (.poll .signals :: .mutator :: below))
  | enter {act region frame below} (isRegion : region = .blocking ∨ region = .safe)
      (isOutside : frame = .mutator ∨ frame = .blocking ∨ frame = .safe) :
      StepCases main s t (frame :: below) act (s.enterRegion t (region :: frame :: below))
  | leaveBlocking {below} : StepCases main s t (.blocking :: below) .leaveBlocking
      (s.leaveRegion t (.poll .signals :: below))
  | leaveSafe {below} : StepCases main s t (.safe :: below) .leaveSafe (s.leaveRegion t below)
  | collect {below} : StepCases main s t (.mutator :: below) .collect
      (s.setFrames t (.collect .tryLock :: .mutator :: below))
  | advancePoll {stage below s'} (next : advancePoll main s t below stage = some s') :
      StepCases main s t (.poll stage :: below) .advance s'
  | advanceCollect {stage below s'} (next : advanceCollect s t below stage = some s') :
      StepCases main s t (.collect stage :: below) .advance s'
  | handler {signalnum signals below} :
      StepCases main s t (.poll (.handling (signalnum :: signals)) :: below) .handler
        (s.setFrames t (.mutator :: .poll (.handling signals) :: below))
  | noHandler {raises signalnum signals below} :
      StepCases main s t (.poll (.handling (signalnum :: signals)) :: below) (.noHandler raises)
        (endHandler s t signals below raises)
  | finalizer {below} : StepCases main s t (.collect .collecting :: below) .finalizer
      (s.setFrames t (.mutator :: .collect .collecting :: below))
  | finishHandler {raises signals below} :
      StepCases main s t (.mutator :: .poll (.handling signals) :: below) (.finish raises)
        (endHandler s t signals below raises)
  | finishFinalizer {raises below} :
      StepCases main s t (.mutator :: .collect .collecting :: below) (.finish raises)
        (s.setFrames t (.collect .collecting :: below))
  | abort {below} : StepCases main s t (.collect .gathering :: below) .abort
      (s.setFrames t (.collect .resumeFlag :: below))
  | attach : StepCases main s t [] .attach
      { s.setFrames t [.mutator] with registry := s.registry ++ [t] }
  | detach : StepCases main s t [.mutator] .detach
      { s.setFrames t [] with registry := s.registry.erase t }
  | signal {frames signalnum} : StepCases main s t frames (.signal signalnum)
      { s with pendingSignals := s.pendingSignals ++ [signalnum] }

theorem step_cases {main : T} {s s' : State T} {t : T} {act : Act} (hstep : step main s t act = some s') :
    StepCases main s t (s.thread t).frames act s' := by
  unfold step at hstep
  generalize (s.thread t).frames = frames at hstep ⊢
  split at hstep
  case h_11 => exact .advancePoll hstep
  case h_12 => exact .advanceCollect hstep
  all_goals try split at hstep
  all_goals cases hstep
  all_goals first
    | exact .enter (by simp) (by simp)
    | constructor

end Steps

def Step [DecidableEq T] (main : T) (s : State T) (label : T × Act) (s' : State T) : Prop :=
  step main s label.1 label.2 = some s'

/-- Any number of attached threads run mutator code; no collection is under way. -/
structure Initial (s : State T) : Prop where
  gcStopRequested : s.gcStopRequested = false
  handshake : s.handshake = .new
  collectMutex : s.collectMutex = none
  attached : ∀ t, t ∈ s.registry → s.thread t = ⟨[.mutator], 0⟩
  detached : ∀ t, t ∉ s.registry → s.thread t = ⟨[], 0⟩

/-- From the pass that found every thread stopped to the end of `resume_global_stop`. -/
def Collect.inWindow : Collect T → Bool
  | .gathering | .collecting | .resumeFlag | .resumeHandshake => true
  | _ => false

/-- The thread is a collector between its observation and the resumption. -/
def InWindow (s : State T) (c : T) : Prop :=
  ∃ stage : Collect T, .collect stage ∈ (s.thread c).frames ∧ stage.inWindow = true

/-- The innermost call of the thread is mutator code. -/
def ExecutesMutator (s : State T) (t : T) : Prop :=
  (s.thread t).frames.head? = some .mutator

/-- While a collector is in its window, no other registered thread executes mutator code. -/
def Excluded (s : State T) : Prop :=
  ∀ c t, InWindow s c → t ∈ s.registry → t ≠ c → ¬ ExecutesMutator s t

/-- The step does not take one of the branches that return a thread to mutator code without a look
at the stop request: the last step of a poll and `pon_gc_safe_region_leave`, where they leave the
outermost region, the call of a signal handler, and the attachment of a thread. A signal handler
must not run inside a region either. The collector itself may take them. -/
def LooksAtRequest [DecidableEq T] (s : State T) (label : T × Act) : Prop :=
  (s.thread label.1).isCollecting = true ∨
    match label.2, (s.thread label.1).frames with
    | .advance, .poll .leaving :: _ | .leaveSafe, _ =>
      (s.thread label.1).gcSafeRegionDepth = 1 → s.stopRequested = false
    | .handler, _ => (s.thread label.1).gcSafeRegionDepth = 0 ∧ s.stopRequested = false
    | .attach, _ => s.stopRequested = false
    | _, _ => True

end Pon.StopTheWorld
