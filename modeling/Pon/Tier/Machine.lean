import Mathlib.Algebra.Group.Nat.Defs
import Mathlib.Logic.Function.Basic
import Pon.Lib.Transition

/-!
# The tier-up machine

Mutator threads probe the hotness of functions at calls and loop back edges and report
deoptimizations; a hot function is queued, pinned and compiled, and its dispatch cell is switched to
the compiled code. Every load, store and compare-and-exchange of an atomic field and every locked
update of the driver is one step, and the steps of all threads interleave freely.

The code of a function is `Entry.tier0`, and the addresses of compiled code carry the compilation
they come from; an entry for on-stack replacement also carries the loop header that it was compiled
for. What the compiler answers for a request is an input of the step.
-/

namespace Pon.Tier

abbrev FunctionId := ℕ

inductive TierState where
  | tier0 | queued | tier1 | deferred | disabled
  deriving DecidableEq

/-- A code address that a dispatch cell may hold. -/
inductive Entry where
  | tier0
  | tier1 (compilation : ℕ)
  deriving DecidableEq

/-- An address of code compiled for entering a loop at `header`. -/
structure OsrEntry where
  compilation : ℕ
  header : ℕ
  deriving DecidableEq

/-- The atomic fields of a function object. -/
structure PyFunction where
  entry : Entry := .tier0
  hotness : ℕ := 0
  loopHotness : ℕ := 0
  tierState : TierState := .tier0
  osrEntry : Option OsrEntry := none
  osrLoopHeader : ℕ := 0
  deoptCount : ℕ := 0
  tierEpoch : ℕ := 0

def u32Max : ℕ := 2 ^ 32 - 1

def u8Max : ℕ := 2 ^ 8 - 1

def tier1CallThreshold : ℕ := 16

def tier1DeferredCallThreshold : ℕ := 16

def tier1LoopThreshold : ℕ := 10000

def deoptThrashThreshold : ℕ := 64

def deoptBackoffMaxShift : ℕ := 6

def deoptPinEpoch : ℕ := 8

def saturatingAdd (limit value : ℕ) : ℕ := min (value + 1) limit

def backedOffThreshold (base epoch : ℕ) : ℕ :=
  min (base * 2 ^ min epoch deoptBackoffMaxShift) u32Max

/-- What a thread is executing. A compile reason is zero for calls and one more than the header for a
loop back edge. -/
inductive Call where
  | bumpCall
  | osrPoll (header : ℕ)
  | deoptNote
  | compile (reason : ℕ)
  deriving DecidableEq

/-- The operations that compiled code calls. -/
def Call.isProbe : Call → Bool
  | .compile _ => false
  | _ => true

def Call.reason : Call → ℕ
  | .osrPoll header => saturatingAdd u32Max header
  | .compile reason => reason
  | .bumpCall | .deoptNote => 0

/-- A finished compilation, with the loop header of its entry for on-stack replacement. -/
structure Tier1Compilation where
  id : ℕ
  osrLoopHeader : Option ℕ
  deriving DecidableEq

def Tier1Compilation.osrEntry (compilation : Tier1Compilation) : Option OsrEntry :=
  compilation.osrLoopHeader.map fun header ↦ ⟨compilation.id, header⟩

/-- The next atomic step of an operation, with the values it has loaded so far. The flag of the
`retire` and `disable` steps tells whether the function is to be unpinned afterwards. -/
inductive Pc where
  | bumpHotness | bumpState (hotness : ℕ) | bumpEpoch (hotness : ℕ)
  | pollHotness | pollState (hotness : ℕ) | pollEpoch (hotness : ℕ)
  | pollTier | pollEntry | pollHeader (entry : OsrEntry)
  | queueHook | queueState | queueHotness | queueEpoch (hotness : ℕ)
  | queueLoopHotness | queueLoopEpoch (hotness : ℕ) | queueCas (deferred : Bool)
  | hookDriver | prepareState | prepareFind | preparePin | prepareSend
  | loopShutdown | processShutdown | processState | processCompile
  | installCas (compilation : Tier1Compilation) | installCell (compilation : Tier1Compilation)
  | installDeopt (compilation : Tier1Compilation) | installEntry (compilation : Tier1Compilation)
  | installHeader (compilation : Tier1Compilation) (header : ℕ)
  | installOsr (compilation : Tier1Compilation) | installPush (compilation : Tier1Compilation)
  | retireCas (pinned : Bool) | retireEntry (pinned : Bool) | retireOsr (pinned : Bool)
  | disableCas (pinned : Bool) | disableEntry (pinned : Bool) | disableOsr (pinned : Bool)
  | unpin
  | deoptCount | deoptEpoch | deoptCas (disable : Bool) | deoptEntry
  | deoptTierEpoch | deoptReset | deoptHotness | deoptLoopHotness
  deriving DecidableEq

structure Task where
  function : FunctionId
  call : Call
  pc : Pc
  deriving DecidableEq

/-- The first step of an operation that a mutator starts. -/
def Call.firstPc : Call → Pc
  | .bumpCall => .bumpHotness
  | .osrPoll _ => .pollHotness
  | .deoptNote => .deoptCount
  | .compile _ => .loopShutdown

structure CompileRequest where
  function : FunctionId
  reason : ℕ
  deriving DecidableEq

/-- The state that the threads share: the function objects, the hooks of the runtime and the driver's
pin set, channel and installed code. -/
structure Shared where
  functions : FunctionId → PyFunction := fun _ ↦ {}
  hook : Bool := false
  activeDriver : Bool := false
  shuttingDown : Bool := false
  sender : Bool := true
  pins : List FunctionId := []
  queue : List CompileRequest := []
  installed : List Tier1Compilation := []

def Shared.modify (s : Shared) (f : FunctionId) (fn : PyFunction) : Shared :=
  { s with functions := Function.update s.functions f fn }

def Shared.pin (s : Shared) (f : FunctionId) : Shared := { s with pins := s.pins.insert f }

def Shared.unpin (s : Shared) (f : FunctionId) : Shared :=
  { s with pins := s.pins.filter (· != f) }

def Shared.send (s : Shared) (request : CompileRequest) : Shared :=
  { s with queue := s.queue ++ [request] }

def Shared.retain (s : Shared) (compilation : Tier1Compilation) : Shared :=
  { s with installed := s.installed ++ [compilation] }

section Shared

variable (s : Shared) (f g : FunctionId) (fn : PyFunction)

@[grind =]
theorem Shared.modify_functions :
    (s.modify f fn).functions g = if g = f then fn else s.functions g := by
  simp [modify, Function.update_apply]

@[grind =]
theorem Shared.modify_pins : (s.modify f fn).pins = s.pins := rfl

@[grind =]
theorem Shared.modify_queue : (s.modify f fn).queue = s.queue := rfl

@[grind =]
theorem Shared.pin_functions : (s.pin f).functions = s.functions := rfl

@[grind =]
theorem Shared.pin_queue : (s.pin f).queue = s.queue := rfl

@[grind =]
theorem Shared.mem_pin : g ∈ (s.pin f).pins ↔ g = f ∨ g ∈ s.pins := by
  simp [pin]

variable (request : CompileRequest)

@[grind =]
theorem Shared.send_functions : (s.send request).functions = s.functions := rfl

@[grind =]
theorem Shared.send_pins : (s.send request).pins = s.pins := rfl

@[grind =]
theorem Shared.send_queue : (s.send request).queue = s.queue ++ [request] := rfl

variable (compilation : Tier1Compilation)

@[grind =]
theorem Shared.retain_functions : (s.retain compilation).functions = s.functions := rfl

@[grind =]
theorem Shared.retain_pins : (s.retain compilation).pins = s.pins := rfl

@[grind =]
theorem Shared.retain_queue : (s.retain compilation).queue = s.queue := rfl

@[grind =]
theorem Shared.unpin_functions : (s.unpin f).functions = s.functions := rfl

@[grind =]
theorem Shared.unpin_queue : (s.unpin f).queue = s.queue := rfl

@[grind =]
theorem Shared.mem_unpin : g ∈ (s.unpin f).pins ↔ g ≠ f ∧ g ∈ s.pins := by
  simp [unpin, and_comm]

end Shared

/-- What lies outside the machine: whether the code of a function is registered with the driver, and
what a compilation ends with. -/
structure Answer where
  registered : Bool := true
  compiled : Option Tier1Compilation := none

/-- The header that a compile reason asks an entry for. -/
def decodeReason : ℕ → Option ℕ
  | 0 => none
  | reason + 1 => some reason

/-- An entry for on-stack replacement is compiled only for the header of the request. -/
def Answer.compilation? (answer : Answer) (reason : ℕ) : Option Tier1Compilation :=
  answer.compiled.map fun compilation ↦
    { compilation with osrLoopHeader := do
        let header ← decodeReason reason
        if compilation.osrLoopHeader.isSome then some header else none }

/-- Back in the caller of `maybe_queue_tierup`: a poll goes on, any other operation is finished. -/
def Task.resume (t : Task) : Option Task :=
  match t.call with
  | .osrPoll _ => some { t with pc := .pollTier }
  | _ => none

def Task.goto (t : Task) (pc : Pc) : Option Task := some { t with pc := pc }

/-- After a request has been retired or disabled. -/
def Task.release (t : Task) (pinned : Bool) : Option Task :=
  if pinned then t.goto .unpin else t.resume

/-- One atomic step of an operation. `sync` selects compilation on the requesting thread. -/
def Task.advance (sync : Bool) (answer : Answer) (s : Shared) (t : Task) : Shared × Option Task :=
  let f := t.function
  let fn := s.functions f
  match t.pc with
  | .bumpHotness =>
    let hotness := saturatingAdd u32Max fn.hotness
    (s.modify f { fn with hotness := hotness }, t.goto (.bumpState hotness))
  | .bumpState hotness =>
    match fn.tierState with
    | .tier0 => (s, if tier1CallThreshold ≤ hotness then t.goto .queueHook else none)
    | .deferred => (s, t.goto (.bumpEpoch hotness))
    | _ => (s, none)
  | .bumpEpoch hotness =>
    (s, if backedOffThreshold tier1DeferredCallThreshold fn.tierEpoch ≤ hotness
      then t.goto .queueHook else none)
  | .pollHotness =>
    let hotness := saturatingAdd u32Max fn.loopHotness
    (s.modify f { fn with loopHotness := hotness }, t.goto (.pollState hotness))
  | .pollState hotness =>
    match fn.tierState with
    | .tier0 => (s, t.goto (if tier1LoopThreshold ≤ hotness then .queueHook else .pollTier))
    | .deferred => (s, t.goto (.pollEpoch hotness))
    | _ => (s, t.goto .pollTier)
  | .pollEpoch hotness =>
    (s, t.goto (if backedOffThreshold tier1LoopThreshold fn.tierEpoch ≤ hotness
      then .queueHook else .pollTier))
  | .pollTier => (s, if fn.tierState = .tier1 then t.goto .pollEntry else none)
  | .pollEntry =>
    match fn.osrEntry with
    | some entry => (s, t.goto (.pollHeader entry))
    | none => (s, none)
  | .pollHeader _ => (s, none)
  | .queueHook => (s, if s.hook then t.goto .queueState else t.resume)
  | .queueState =>
    match fn.tierState with
    | .tier0 => (s, t.goto (.queueCas false))
    | .deferred => (s, t.goto .queueHotness)
    | _ => (s, t.resume)
  | .queueHotness => (s, t.goto (.queueEpoch fn.hotness))
  | .queueEpoch hotness =>
    (s, t.goto (if backedOffThreshold tier1DeferredCallThreshold fn.tierEpoch ≤ hotness
      then .queueCas true else .queueLoopHotness))
  | .queueLoopHotness => (s, t.goto (.queueLoopEpoch fn.loopHotness))
  | .queueLoopEpoch hotness =>
    (s, if backedOffThreshold tier1LoopThreshold fn.tierEpoch ≤ hotness
      then t.goto (.queueCas true) else t.resume)
  | .queueCas deferred =>
    if fn.tierState = (if deferred then .deferred else .tier0) then
      (s.modify f { fn with tierState := .queued }, t.goto .hookDriver)
    else (s, t.resume)
  | .hookDriver => (s, t.goto (if s.activeDriver then .prepareState else .retireCas false))
  | .prepareState => (s, if fn.tierState = .queued then t.goto .prepareFind else t.resume)
  | .prepareFind => (s, t.goto (if answer.registered then .preparePin else .disableCas false))
  | .preparePin => (s.pin f, t.goto .prepareSend)
  | .prepareSend =>
    if sync then (s, t.goto .processShutdown)
    else if s.sender then (s.send ⟨f, t.call.reason⟩, t.resume)
    else (s, t.goto (.retireCas true))
  | .loopShutdown => (s, t.goto (if s.shuttingDown then .retireCas true else .processShutdown))
  | .processShutdown => (s, t.goto (if s.shuttingDown then .retireCas true else .processState))
  | .processState => (s, t.goto (if fn.tierState = .queued then .processCompile else .unpin))
  | .processCompile =>
    match answer.compilation? t.call.reason with
    | some compilation => (s, t.goto (.installCas compilation))
    | none => (s, t.goto (.disableCas true))
  | .installCas compilation =>
    if fn.tierState = .queued then
      (s.modify f { fn with tierState := .tier1 }, t.goto (.installCell compilation))
    else (s, t.goto .unpin)
  | .installCell compilation => (s, t.goto (.installDeopt compilation))
  | .installDeopt compilation =>
    (s.modify f { fn with deoptCount := 0 }, t.goto (.installEntry compilation))
  | .installEntry compilation =>
    let s := s.modify f { fn with entry := .tier1 compilation.id }
    match compilation.osrLoopHeader with
    | some header => (s, t.goto (.installHeader compilation header))
    | none => (s, t.goto (.installOsr compilation))
  | .installHeader compilation header =>
    (s.modify f { fn with osrLoopHeader := header }, t.goto (.installOsr compilation))
  | .installOsr compilation =>
    (s.modify f { fn with osrEntry := compilation.osrEntry }, t.goto (.installPush compilation))
  | .installPush compilation => (s.retain compilation, t.goto .unpin)
  | .retireCas pinned =>
    if fn.tierState = .queued then
      (s.modify f { fn with tierState := .tier0 }, t.goto (.retireEntry pinned))
    else (s, t.release pinned)
  | .retireEntry pinned => (s.modify f { fn with entry := .tier0 }, t.goto (.retireOsr pinned))
  | .retireOsr pinned => (s.modify f { fn with osrEntry := none }, t.release pinned)
  | .disableCas pinned =>
    if fn.tierState = .queued then
      (s.modify f { fn with tierState := .disabled }, t.goto (.disableEntry pinned))
    else (s, t.release pinned)
  | .disableEntry pinned => (s.modify f { fn with entry := .tier0 }, t.goto (.disableOsr pinned))
  | .disableOsr pinned => (s.modify f { fn with osrEntry := none }, t.release pinned)
  | .unpin => (s.unpin f, t.resume)
  | .deoptCount =>
    let count := saturatingAdd u32Max fn.deoptCount
    (s.modify f { fn with deoptCount := (fn.deoptCount + 1) % 2 ^ 32 },
      if count < deoptThrashThreshold then none else t.goto .deoptEpoch)
  | .deoptEpoch =>
    (s, t.goto (.deoptCas (decide (deoptPinEpoch ≤ fn.tierEpoch))))
  | .deoptCas disable =>
    if fn.tierState = .tier1 then
      (s.modify f { fn with tierState := if disable then .disabled else .deferred }, t.goto .deoptEntry)
    else (s, none)
  | .deoptEntry => (s.modify f { fn with entry := .tier0 }, t.goto .deoptTierEpoch)
  | .deoptTierEpoch =>
    (s.modify f { fn with tierEpoch := saturatingAdd u8Max fn.tierEpoch }, t.goto .deoptReset)
  | .deoptReset => (s.modify f { fn with deoptCount := 0 }, t.goto .deoptHotness)
  | .deoptHotness => (s.modify f { fn with hotness := 0 }, t.goto .deoptLoopHotness)
  | .deoptLoopHotness => (s.modify f { fn with loopHotness := 0 }, none)

inductive ThreadId where
  | compiler
  | mutator (index : ℕ)
  deriving DecidableEq

structure System where
  shared : Shared := {}
  tasks : ThreadId → Option Task := fun _ ↦ none

/-- The steps of the system: a mutator starts an operation, a thread executes its next atomic step,
the compiler takes a request from the channel, and the embedder changes the hooks. -/
inductive Label where
  | start (thread : ℕ) (function : FunctionId) (call : Call)
  | advance (thread : ThreadId) (answer : Answer)
  | receive
  | setHook (installed : Bool)
  | setDriver (active : Bool)
  | shutDown

def System.setTask (s : System) (thread : ThreadId) (task : Option Task) : System :=
  { s with tasks := Function.update s.tasks thread task }

def System.step? (sync : Bool) (s : System) : Label → Option System
  | .start thread function call =>
    if s.tasks (.mutator thread) = none ∧ call.isProbe then
      some (s.setTask (.mutator thread) (some ⟨function, call, call.firstPc⟩))
    else none
  | .advance thread answer =>
    (s.tasks thread).map fun task ↦
      let (shared, next) := task.advance sync answer s.shared
      { s.setTask thread next with shared := shared }
  | .receive =>
    match s.tasks .compiler, s.shared.queue with
    | none, request :: queue => some
      { s.setTask .compiler (some ⟨request.function, .compile request.reason, .loopShutdown⟩) with
        shared := { s.shared with queue := queue } }
    | _, _ => none
  | .setHook installed => some { s with shared := { s.shared with hook := installed } }
  | .setDriver active => some { s with shared := { s.shared with activeDriver := active } }
  | .shutDown => some { s with shared := { s.shared with shuttingDown := true, sender := false } }

def System.Step (sync : Bool) (s : System) (label : Label) (s' : System) : Prop :=
  s.step? sync label = some s'

/-- New functions, no operation in progress. -/
def System.Initial (s : System) : Prop := s = {}

/-- The states of the runs whose steps all meet `guard`. -/
abbrev System.Reachable (sync : Bool) (guard : System → Label → Prop) : System → Prop :=
  Transition.Reachable System.Initial guard (System.Step sync)

variable {sync : Bool} {s s' : System} {label : Label} {thread : ThreadId}

/-- What a step of the system does: an idle mutator is given a task, a task advances, the compiler is
given the oldest request, or only the hooks change. -/
theorem System.Step.cases (h : s.Step sync label s') :
    (∃ thread function call, s.tasks (.mutator thread) = none ∧
      s' = s.setTask (.mutator thread) (some ⟨function, call, call.firstPc⟩) ∧
      call.isProbe) ∨
    (∃ thread answer task shared next, label = .advance thread answer ∧
      s.tasks thread = some task ∧ task.advance sync answer s.shared = (shared, next) ∧
      s' = { s.setTask thread next with shared := shared }) ∨
    (∃ request queue, s.tasks .compiler = none ∧ s.shared.queue = request :: queue ∧
      s' = { s.setTask .compiler (some ⟨request.function, .compile request.reason, .loopShutdown⟩)
        with shared := { s.shared with queue := queue } }) ∨
    (s'.tasks = s.tasks ∧ s'.shared.functions = s.shared.functions ∧
      s'.shared.pins = s.shared.pins ∧ s'.shared.queue = s.shared.queue) := by
  unfold Step at h
  cases label with
  | start thread function call =>
    simp only [step?] at h
    split at h
    · next enabled =>
      exact .inl ⟨thread, function, call, enabled.1, (Option.some.inj h).symm, enabled.2⟩
    · cases h
  | advance thread answer =>
    simp only [step?] at h
    obtain ⟨task, running, rfl⟩ := Option.map_eq_some_iff.mp h
    exact .inr (.inl ⟨thread, answer, task, _, _, rfl, running, rfl, rfl⟩)
  | receive =>
    simp only [step?] at h
    split at h
    · next request queue idle pending =>
      exact .inr (.inr (.inl ⟨request, queue, idle, pending, (Option.some.inj h).symm⟩))
    · cases h
  | setHook _ | setDriver _ | shutDown =>
    obtain rfl := Option.some.inj h
    exact .inr (.inr (.inr ⟨rfl, rfl, rfl, rfl⟩))

/-- The state after a list of steps, if all of them are enabled. -/
def System.run? (sync : Bool) (s : System) (labels : List Label) : Option System :=
  Transition.runLabels (fun _ _ ↦ true) (System.step? sync) s labels

/-- The thread whose task a step may change. -/
def Label.actor : Label → Option ThreadId
  | .start thread .. => some (.mutator thread)
  | .advance thread _ => some thread
  | .receive => some .compiler
  | .setHook _ | .setDriver _ | .shutDown => none

theorem System.step?_tasks (h : s.step? sync label = some s') (other : label.actor ≠ some thread) :
    s'.tasks thread = s.tasks thread := by
  cases label with
  | start acting function call =>
    have different : thread ≠ .mutator acting := fun same ↦ other (same ▸ rfl)
    simp only [step?] at h
    split at h
    · obtain rfl := Option.some.inj h
      simp [setTask, different]
    · cases h
  | advance acting answer =>
    have different : thread ≠ acting := fun same ↦ other (same ▸ rfl)
    obtain ⟨task, -, rfl⟩ := Option.map_eq_some_iff.mp h
    simp [setTask, different]
  | receive =>
    have different : thread ≠ .compiler := fun same ↦ other (same ▸ rfl)
    simp only [step?] at h
    split at h
    · obtain rfl := Option.some.inj h
      simp [setTask, different]
    · cases h
  | setHook _ | setDriver _ | shutDown => exact Option.some.inj h ▸ rfl

/-- A thread takes a number of atomic steps. -/
def advances (thread : ThreadId) (count : ℕ) (answer : Answer := {}) : List Label :=
  List.replicate count (.advance thread answer)

theorem exists_of_any {α : Type} {x : Option α} {p : α → Prop} [DecidablePred p]
    (h : x.any (fun a ↦ p a) = true) : ∃ a, x = some a ∧ p a := by
  cases x with
  | none => cases h
  | some a => exact ⟨a, rfl, by simpa using h⟩

end Pon.Tier
