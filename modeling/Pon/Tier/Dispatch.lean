import Mathlib.Data.Bool.Basic
import Mathlib.Data.List.Nodup
import Pon.Tier.Osr

/-!
# The dispatch cell and the pin set

Every transition of a tier state is a compare-and-exchange, and the operation that wins it stores the
dispatch cell in a later step; a request pins its function and unpins it in its last step. As long
as a state transition waits for the store of the previous one, and a function is not queued again
before its previous request has unpinned it, the dispatch cell agrees with the state whenever no
store is outstanding, and every function with a request in flight is pinned.
-/

namespace Pon.Tier

/-- The steps of an operation that holds a compile request. -/
def Pc.holdsRequest : Pc → Bool
  | .prepareSend | .loopShutdown | .processShutdown | .processState | .processCompile => true
  | .installCas _ | .installCell _ | .installDeopt _ | .installEntry _ | .installHeader .. => true
  | .installOsr _ | .installPush _ => true
  | .retireCas pinned | .retireEntry pinned | .retireOsr pinned => pinned
  | .disableCas pinned | .disableEntry pinned | .disableOsr pinned => pinned
  | .unpin => true
  | _ => false

/-- The steps of an operation that has queued its function but not yet pinned it. -/
def Pc.claims : Pc → Bool
  | .hookDriver | .prepareState | .prepareFind | .preparePin => true
  | .retireCas pinned | .disableCas pinned => !pinned
  | _ => false

/-- Whether an operation has yet to store the dispatch cell for a transition it has made, and whether
it will store compiled code. -/
def Pc.pendingStore : Pc → Option Bool
  | .installCell _ | .installDeopt _ | .installEntry _ => some true
  | .retireEntry _ | .disableEntry _ | .deoptEntry => some false
  | _ => none

/-- A request for the function is being prepared, waits in the channel or is being processed. -/
def System.InFlight (s : System) (f : FunctionId) : Prop :=
  (∃ request ∈ s.shared.queue, request.function = f) ∨
  ∃ thread task, s.tasks thread = some task ∧ task.function = f ∧ task.pc.holdsRequest = true

/-- All started operations have finished. -/
def System.Quiescent (s : System) : Prop := (∀ thread, s.tasks thread = none) ∧ s.shared.queue = []

/-- The dispatch cell holds compiled code in the compiled state and the original code elsewhere. -/
def PyFunction.Dispatches (fn : PyFunction) : Prop :=
  if fn.tierState = .tier1 then ∃ compilation, fn.entry = .tier1 compilation else fn.entry = .tier0

/-- No operation has yet to store the dispatch cell of `f`. -/
def System.Settled (s : System) (f : FunctionId) : Prop :=
  ∀ thread task, s.tasks thread = some task → task.function = f → task.pc.pendingStore = none

/-- The transitions into and out of a compiled state wait for the operations that precede them. -/
structure DispatchOrderly (s : System) (label : Label) : Prop where
  /-- A function is queued when its dispatch cell is settled and no earlier request holds it. -/
  requeue : ∀ {thread answer f call deferred}, label = .advance thread answer →
    s.tasks thread = some ⟨f, call, .queueCas deferred⟩ →
    (s.shared.functions f).tierState = (if deferred then .deferred else .tier0) →
    s.Settled f ∧ ¬s.InFlight f
  /-- A function is deoptimized when its dispatch cell is settled. -/
  deopt : ∀ {thread answer f call disable}, label = .advance thread answer →
    s.tasks thread = some ⟨f, call, .deoptCas disable⟩ →
    (s.shared.functions f).tierState = .tier1 → s.Settled f

/-! ## What a step does -/

/-- The state and dispatch cell of every function are the same. -/
def SameDispatch (s s' : Shared) : Prop :=
  ∀ g, (s'.functions g).tierState = (s.functions g).tierState ∧
    (s'.functions g).entry = (s.functions g).entry

/-- The function `f` changes to the given state and dispatch cell, and the others keep theirs. -/
def ChangesDispatch (s s' : Shared) (f : FunctionId) (state : TierState) (entry : Entry) : Prop :=
  ∀ g, (s'.functions g).tierState = (if g = f then state else (s.functions g).tierState) ∧
    (s'.functions g).entry = (if g = f then entry else (s.functions g).entry)

/-- The effects of an atomic step on the tier states, the dispatch cells and the requests. -/
inductive Effect (s : Shared) (t : Task) (s' : Shared) (next : Option Task) : Prop where
  | quiet (same : SameDispatch s s') (pins : s'.pins = s.pins) (queue : s'.queue = s.queue)
      (task : ∀ t' ∈ next, t'.function = t.function ∧ (t'.pc.claims → t.pc.claims) ∧
        (t'.pc.holdsRequest → t.pc.holdsRequest) ∧ t'.pc.pendingStore = t.pc.pendingStore)
      (finished : next = none → t.pc.pendingStore = none)
  | requeue (deferred : Bool) (pc : t.pc = .queueCas deferred)
      (before : (s.functions t.function).tierState = if deferred then .deferred else .tier0)
      (change : ChangesDispatch s s' t.function .queued (s.functions t.function).entry)
      (pins : s'.pins = s.pins) (queue : s'.queue = s.queue)
      (task : next = some { t with pc := .hookDriver })
  | pin (pc : t.pc = .preparePin) (shared : s' = s.pin t.function)
      (task : next = some { t with pc := .prepareSend })
  | send (pc : t.pc = .prepareSend) (shared : s' = s.send ⟨t.function, t.call.reason⟩)
      (task : ∀ t' ∈ next, t'.pc = .pollTier)
  | leave (state : TierState) (notQueued : state ≠ .queued)
      (engaged : t.pc.claims ∨ t.pc.holdsRequest) (idle : t.pc.pendingStore = none)
      (before : (s.functions t.function).tierState = .queued)
      (change : ChangesDispatch s s' t.function state (s.functions t.function).entry)
      (pins : s'.pins = s.pins) (queue : s'.queue = s.queue)
      (task : ∃ t', next = some t' ∧ t'.function = t.function ∧ t'.pc.claims = false ∧
        (t'.pc.holdsRequest → t.pc.holdsRequest) ∧
        t'.pc.pendingStore = some (decide (state = .tier1)))
  | deopt (disable : Bool) (state : TierState) (pc : t.pc = .deoptCas disable)
      (notQueued : state ≠ .queued) (notTier1 : state ≠ .tier1)
      (before : (s.functions t.function).tierState = .tier1)
      (change : ChangesDispatch s s' t.function state (s.functions t.function).entry)
      (pins : s'.pins = s.pins) (queue : s'.queue = s.queue)
      (task : next = some { t with pc := .deoptEntry })
  | store (compiled : Bool) (entry : Entry) (pc : t.pc.pendingStore = some compiled)
      (stored : if compiled then ∃ compilation, entry = .tier1 compilation else entry = .tier0)
      (change : ChangesDispatch s s' t.function (s.functions t.function).tierState entry)
      (pins : s'.pins = s.pins) (queue : s'.queue = s.queue)
      (task : ∃ t', next = some t' ∧ t'.function = t.function ∧ t'.pc.claims = false ∧
        (t'.pc.holdsRequest → t.pc.holdsRequest) ∧ t'.pc.pendingStore = none)
  | unpin (pc : t.pc = .unpin) (shared : s' = s.unpin t.function)
      (task : ∀ t' ∈ next, t'.pc = .pollTier)

/-- The steps that may change a tier state, a dispatch cell, the pin set or the channel. -/
def Pc.effectful : Pc → Bool
  | .queueCas _ | .preparePin | .prepareSend | .unpin | .installCas _ | .installEntry _
  | .retireCas _ | .retireEntry _ | .disableCas _ | .disableEntry _ | .deoptCas _ | .deoptEntry => true
  | _ => false

section Advance

variable {sync : Bool} {answer : Answer} {s s' : Shared} {t : Task} {next : Option Task}

theorem advance_sameDispatch (h : t.advance sync answer s = (s', next))
    (quiet : t.pc.effectful = false) : SameDispatch s s' ∧ s'.pins = s.pins ∧ s'.queue = s.queue := by
  obtain ⟨f, call, pc⟩ := t
  cases pc <;> first
    | exact absurd quiet Bool.true_eq_false.mp
    | (simp only [Task.advance] at h
       grind [SameDispatch])

/-- A step without effects hands on no claim, request or outstanding store. -/
theorem advance_task (h : t.advance sync answer s = (s', next)) (quiet : t.pc.effectful = false) :
    (∀ t' ∈ next, t'.function = t.function ∧ (t'.pc.claims → t.pc.claims) ∧
      (t'.pc.holdsRequest → t.pc.holdsRequest) ∧ t'.pc.pendingStore = t.pc.pendingStore) ∧
    (next = none → t.pc.pendingStore = none) := by
  obtain ⟨f, call, pc⟩ := t
  cases pc <;> first
    | exact absurd quiet Bool.true_eq_false.mp
    | (simp only [Task.advance, Task.goto, Task.resume, Task.release] at h
       (repeat' split at h) <;> cases h <;> simp [Pc.claims, Pc.holdsRequest, Pc.pendingStore, *])

/-- A step that loses its compare-and-exchange, or sends nothing, only goes on. -/
theorem Effect.lost (state : s' = s) (idle : t.pc.pendingStore = none)
    (task : ∀ t' ∈ next, t'.function = t.function ∧ (t'.pc.claims → t.pc.claims) ∧
      (t'.pc.holdsRequest → t.pc.holdsRequest) ∧ t'.pc.pendingStore = none) :
    Effect s t s' next := by
  subst state
  exact .quiet (fun _ ↦ ⟨rfl, rfl⟩) rfl rfl (fun t' mem ↦ idle ▸ task t' mem) fun _ ↦ idle

/-- A compare-and-exchange from the queued state, as installing, retiring and disabling do it. -/
theorem Effect.exchange (state : TierState) (won lost : Option Task) (notQueued : state ≠ .queued)
    (engaged : t.pc.claims ∨ t.pc.holdsRequest) (idle : t.pc.pendingStore = none)
    (winner : ∃ t', won = some t' ∧ t'.function = t.function ∧ t'.pc.claims = false ∧
      (t'.pc.holdsRequest → t.pc.holdsRequest) ∧ t'.pc.pendingStore = some (decide (state = .tier1)))
    (loser : ∀ t' ∈ lost, t'.function = t.function ∧ (t'.pc.claims → t.pc.claims) ∧
      (t'.pc.holdsRequest → t.pc.holdsRequest) ∧ t'.pc.pendingStore = none)
    (h : (if (s.functions t.function).tierState = .queued then
        (s.modify t.function { s.functions t.function with tierState := state }, won)
      else (s, lost)) = (s', next)) : Effect s t s' next := by
  split at h
  · next before =>
    cases h
    exact .leave state notQueued engaged idle before (by grind [ChangesDispatch]) rfl rfl winner
  · cases h
    exact .lost rfl idle loser

theorem advance_effect (h : t.advance sync answer s = (s', next)) : Effect s t s' next := by
  by_cases quiet : t.pc.effectful = false
  · obtain ⟨same, pins, queue⟩ := advance_sameDispatch h quiet
    obtain ⟨task, finished⟩ := advance_task h quiet
    exact .quiet same pins queue task finished
  obtain ⟨f, call, pc⟩ := t
  cases pc <;> try exact absurd rfl quiet
  case queueCas deferred =>
    simp only [Task.advance, Task.goto, Task.resume] at h
    by_cases won : (s.functions f).tierState = if deferred then .deferred else .tier0
    · rw [if_pos won] at h
      cases h
      exact .requeue deferred rfl won (by grind [ChangesDispatch]) rfl rfl rfl
    · rw [if_neg won] at h
      cases h
      exact .lost rfl rfl (by grind [Pc.claims, Pc.holdsRequest, Pc.pendingStore])
  case preparePin =>
    cases h
    exact .pin rfl rfl rfl
  case unpin =>
    cases h
    exact .unpin rfl rfl (by grind [Task.resume])
  case prepareSend =>
    simp only [Task.advance, Task.goto, Task.resume] at h
    split at h
    · cases h
      exact .lost rfl rfl (by grind [Pc.claims, Pc.holdsRequest, Pc.pendingStore])
    · split at h
      · cases h
        exact .send rfl rfl (by grind)
      · cases h
        exact .lost rfl rfl (by grind [Pc.claims, Pc.holdsRequest, Pc.pendingStore])
  case deoptCas disable =>
    simp only [Task.advance, Task.goto] at h
    split at h
    · next won =>
      cases h
      exact .deopt disable (if disable then .disabled else .deferred) rfl (by grind) (by grind) won
        (by grind [ChangesDispatch]) rfl rfl rfl
    · cases h
      exact .lost rfl rfl (by simp)
  case installCas compilation =>
    refine .exchange .tier1 (some ⟨f, call, .installCell compilation⟩) (some ⟨f, call, .unpin⟩)
      (by simp) (.inr rfl) rfl ⟨_, rfl, rfl, rfl, fun _ ↦ rfl, rfl⟩ ?_ h
    grind [Task.goto, Pc.claims, Pc.holdsRequest, Pc.pendingStore]
  case retireCas pinned =>
    refine .exchange .tier0 (some ⟨f, call, .retireEntry pinned⟩)
      (Task.release ⟨f, call, .retireCas pinned⟩ pinned) (by simp)
      (by cases pinned <;> simp [Pc.claims, Pc.holdsRequest]) rfl
      ⟨_, rfl, rfl, rfl, fun h ↦ h, rfl⟩ ?_ h
    grind [Task.goto, Task.resume, Task.release, Pc.claims, Pc.holdsRequest, Pc.pendingStore]
  case disableCas pinned =>
    refine .exchange .disabled (some ⟨f, call, .disableEntry pinned⟩)
      (Task.release ⟨f, call, .disableCas pinned⟩ pinned) (by simp)
      (by cases pinned <;> simp [Pc.claims, Pc.holdsRequest]) rfl
      ⟨_, rfl, rfl, rfl, fun h ↦ h, rfl⟩ ?_ h
    grind [Task.goto, Task.resume, Task.release, Pc.claims, Pc.holdsRequest, Pc.pendingStore]
  case installEntry compilation =>
    refine .store true (.tier1 compilation.id) rfl ⟨_, rfl⟩ ?_ ?_ ?_ ?_ <;>
      simp only [Task.advance, Task.goto] at h <;>
      grind [ChangesDispatch, Pc.claims, Pc.holdsRequest, Pc.pendingStore]
  case retireEntry | disableEntry | deoptEntry =>
    cases h
    exact .store false .tier0 rfl rfl (by grind [ChangesDispatch]) rfl rfl
      ⟨_, rfl, rfl, rfl, fun h ↦ h, rfl⟩

end Advance

/-! ## The dispatch invariant -/

/-- The steps of an operation that owns the queued state of its function or a request for it. -/
def Pc.engaged (pc : Pc) : Bool := pc.claims || pc.holdsRequest

/-- Requests and outstanding stores of a function have one owner; the state, the dispatch cell and
the pin set agree with what the owners have still to do. -/
structure DispatchInv (s : System) : Prop where
  unique : ∀ {i j a b}, s.tasks i = some a → s.tasks j = some b → a.function = b.function →
    a.pc.engaged → b.pc.engaged → i = j
  queueAlone : ∀ {i a request}, s.tasks i = some a → request ∈ s.shared.queue →
    request.function = a.function → ¬a.pc.engaged
  queueNodup : (s.shared.queue.map (·.function)).Nodup
  claimed : ∀ {i a}, s.tasks i = some a → a.pc.claims →
    (s.shared.functions a.function).tierState = .queued
  heldPinned : ∀ {i a}, s.tasks i = some a → a.pc.holdsRequest → a.function ∈ s.shared.pins
  queuePinned : ∀ {request}, request ∈ s.shared.queue → request.function ∈ s.shared.pins
  uniqueStore : ∀ {i j a b}, s.tasks i = some a → s.tasks j = some b → a.function = b.function →
    a.pc.pendingStore ≠ none → b.pc.pendingStore ≠ none → i = j
  pending : ∀ {i a compiled}, s.tasks i = some a → a.pc.pendingStore = some compiled →
    (s.shared.functions a.function).tierState ≠ .queued ∧
    compiled = decide ((s.shared.functions a.function).tierState = .tier1)
  settled : ∀ {f}, s.Settled f → (s.shared.functions f).Dispatches

/-- The state after a step of `thread` that leaves it with the task `next`. -/
def System.put (s : System) (thread : ThreadId) (next : Option Task) (shared : Shared) : System :=
  { s.setTask thread next with shared := shared }

section Put

variable {s : System} {thread : ThreadId} {task : Task} {shared : Shared} {next : Option Task}

@[grind =]
theorem System.put_tasks (other : ThreadId) :
    (s.put thread next shared).tasks other = if other = thread then next else s.tasks other := by
  simp [put, setTask, Function.update_apply]

@[grind =]
theorem System.put_shared : (s.put thread next shared).shared = shared := rfl

variable {f : FunctionId} {call : Call}

/-- A dispatch cell that is settled afterwards was settled before, up to the acting task. -/
theorem System.Settled.of_put (after : (s.put thread next shared).Settled f)
    (running : s.tasks thread = some task) (own : task.function = f → task.pc.pendingStore = none) :
    s.Settled f := by
  intro other task' running' hf
  by_cases same : other = thread
  · obtain rfl : task = task' := Option.some.inj (running.symm.trans (same ▸ running'))
    exact own hf
  · exact after other task' (by rw [put_tasks, if_neg same, running']) hf

theorem DispatchInv.quiet (inv : DispatchInv s) (running : s.tasks thread = some task)
    (same : SameDispatch s.shared shared) (pins : shared.pins = s.shared.pins)
    (queue : shared.queue = s.shared.queue)
    (htask : ∀ t' ∈ next, t'.function = task.function ∧ (t'.pc.claims → task.pc.claims) ∧
      (t'.pc.holdsRequest → task.pc.holdsRequest) ∧ t'.pc.pendingStore = task.pc.pendingStore)
    (finished : next = none → task.pc.pendingStore = none) :
    DispatchInv (s.put thread next shared) := by
  obtain ⟨_, _, _, _, _, _, _, _, settled⟩ := inv
  constructor
  case settled =>
    intro f after
    have own : task.function = f → task.pc.pendingStore = none := by
      intro hf
      cases hnext : next with
      | none => exact finished hnext
      | some task' =>
        have facts := htask task' hnext
        rw [← facts.2.2.2]
        exact after thread task' (by rw [System.put_tasks, if_pos rfl, hnext]) (facts.1.trans hf)
    have dispatches := settled (after.of_put running own)
    rwa [PyFunction.Dispatches, ← (same f).1, ← (same f).2] at dispatches
  all_goals grind [Pc.engaged, SameDispatch]

theorem DispatchInv.requeue {deferred : Bool} (inv : DispatchInv s)
    (running : s.tasks thread = some ⟨f, call, .queueCas deferred⟩)
    (before : (s.shared.functions f).tierState = if deferred then .deferred else .tier0)
    (fSettled : s.Settled f) (notInFlight : ¬s.InFlight f)
    (change : ChangesDispatch s.shared shared f .queued (s.shared.functions f).entry)
    (pins : shared.pins = s.shared.pins) (queue : shared.queue = s.shared.queue) :
    DispatchInv (s.put thread (some ⟨f, call, .hookDriver⟩) shared) := by
  obtain ⟨_, _, _, _, _, _, _, _, settled⟩ := inv
  have notQueued : (s.shared.functions f).tierState ≠ .queued := by grind
  have noRequest : ∀ request ∈ s.shared.queue, request.function ≠ f :=
    fun request mem hf ↦ notInFlight (.inl ⟨request, mem, hf⟩)
  have notEngaged : ∀ other task, s.tasks other = some task → task.function = f →
      task.pc.engaged = false := by
    grind [Pc.engaged, System.InFlight]
  constructor
  case settled =>
    intro g after
    have dispatches := settled (after.of_put running fun _ ↦ rfl)
    have own := settled fSettled
    grind [PyFunction.Dispatches, ChangesDispatch]
  all_goals grind [Pc.engaged, Pc.holdsRequest, Pc.pendingStore, ChangesDispatch, System.Settled]

theorem DispatchInv.pin (inv : DispatchInv s)
    (running : s.tasks thread = some ⟨f, call, .preparePin⟩) :
    DispatchInv (s.put thread (some ⟨f, call, .prepareSend⟩) (s.shared.pin f)) := by
  obtain ⟨_, _, _, _, _, _, _, _, settled⟩ := inv
  have isEngaged : Pc.preparePin.engaged := rfl
  constructor
  case settled =>
    intro g after
    have dispatches := settled (after.of_put running fun _ ↦ rfl)
    grind
  all_goals grind [Pc.claims, Pc.pendingStore]

theorem DispatchInv.send {reason : ℕ} (inv : DispatchInv s)
    (running : s.tasks thread = some ⟨f, call, .prepareSend⟩)
    (htask : ∀ t' ∈ next, t'.pc = .pollTier) :
    DispatchInv (s.put thread next (s.shared.send ⟨f, reason⟩)) := by
  obtain ⟨_, _, _, _, _, _, _, _, settled⟩ := inv
  have isEngaged : Pc.prepareSend.engaged := rfl
  have isHeld : Pc.prepareSend.holdsRequest := rfl
  have idle : Pc.pollTier.engaged = false ∧ Pc.pollTier.claims = false ∧
      Pc.pollTier.holdsRequest = false ∧ Pc.pollTier.pendingStore = none := ⟨rfl, rfl, rfl, rfl⟩
  constructor
  case settled =>
    intro g after
    have dispatches := settled (after.of_put running fun _ ↦ rfl)
    grind
  all_goals grind

variable {state : TierState} {task' : Task}

variable (inv : DispatchInv s)
include inv

/-- The owner of the queued state leaves it and is the only one with a store outstanding. -/
theorem DispatchInv.leave (running : s.tasks thread = some task)
    (notQueued : state ≠ .queued) (engaged : task.pc.claims ∨ task.pc.holdsRequest)
    (idle : task.pc.pendingStore = none)
    (before : (s.shared.functions task.function).tierState = .queued)
    (change : ChangesDispatch s.shared shared task.function state
      (s.shared.functions task.function).entry) (pins : shared.pins = s.shared.pins)
    (queue : shared.queue = s.shared.queue) (hf : task'.function = task.function)
    (notClaims : task'.pc.claims = false) (holds : task'.pc.holdsRequest → task.pc.holdsRequest)
    (store : task'.pc.pendingStore = some (decide (state = .tier1))) :
    DispatchInv (s.put thread (some task') shared) := by
  obtain ⟨unique, _, _, claimed, _, _, _, pending, settled⟩ := inv
  have isEngaged : task.pc.engaged := by grind [Pc.engaged]
  have fSettled : s.Settled task.function := by
    intro other task'' running'' same
    cases hstore : task''.pc.pendingStore with
    | none => rfl
    | some compiled => exact absurd (same ▸ before) (pending running'' hstore).1
  constructor
  · grind [Pc.engaged]
  · grind [Pc.engaged]
  · grind
  · intro other task'' running'' claims
    by_cases acting : other = thread
    · grind
    · have old : s.tasks other = some task'' := by grind
      have different : task''.function ≠ task.function := by
        intro same
        exact acting (unique old running same (by simp [Pc.engaged, claims]) isEngaged)
      have stays := claimed old claims
      grind [ChangesDispatch]
  · grind
  · grind
  · grind [System.Settled]
  · grind [ChangesDispatch, System.Settled]
  · intro g after
    have dispatches := settled (after.of_put running fun _ ↦ idle)
    have different : g ≠ task.function := by
      rintro rfl
      have := after thread task' (by rw [System.put_tasks, if_pos rfl]) hf
      grind
    grind [ChangesDispatch, PyFunction.Dispatches]

theorem DispatchInv.deopt {disable : Bool}
    (running : s.tasks thread = some ⟨f, call, .deoptCas disable⟩) (notQueued : state ≠ .queued)
    (notTier1 : state ≠ .tier1) (before : (s.shared.functions f).tierState = .tier1)
    (fSettled : s.Settled f)
    (change : ChangesDispatch s.shared shared f state (s.shared.functions f).entry)
    (pins : shared.pins = s.shared.pins) (queue : shared.queue = s.shared.queue) :
    DispatchInv (s.put thread (some ⟨f, call, .deoptEntry⟩) shared) := by
  obtain ⟨_, _, _, _, _, _, _, _, settled⟩ := inv
  have idle : Pc.deoptEntry.engaged = false ∧ Pc.deoptEntry.claims = false ∧
      Pc.deoptEntry.holdsRequest = false ∧ Pc.deoptEntry.pendingStore = some false :=
    ⟨rfl, rfl, rfl, rfl⟩
  constructor
  case settled =>
    intro g after
    have dispatches := settled (after.of_put running fun _ ↦ rfl)
    have different : g ≠ f := by
      rintro rfl
      have := after thread _ (by rw [System.put_tasks, if_pos rfl]) rfl
      grind
    grind [ChangesDispatch, PyFunction.Dispatches]
  all_goals grind [ChangesDispatch, System.Settled]

theorem DispatchInv.store {compiled : Bool} {entry : Entry}
    (running : s.tasks thread = some task) (pc : task.pc.pendingStore = some compiled)
    (stored : if compiled then ∃ compilation, entry = .tier1 compilation else entry = .tier0)
    (change : ChangesDispatch s.shared shared task.function
      (s.shared.functions task.function).tierState entry) (pins : shared.pins = s.shared.pins)
    (queue : shared.queue = s.shared.queue) (hf : task'.function = task.function)
    (notClaims : task'.pc.claims = false) (holds : task'.pc.holdsRequest → task.pc.holdsRequest)
    (idle : task'.pc.pendingStore = none) :
    DispatchInv (s.put thread (some task') shared) := by
  obtain ⟨_, _, _, _, _, _, _, pending, settled⟩ := inv
  constructor
  case settled =>
    intro g after
    by_cases own : g = task.function
    · have agrees := (pending running pc).2
      subst own
      rw [PyFunction.Dispatches, System.put_shared, (change _).1, (change _).2, if_pos rfl, if_pos rfl]
      subst agrees
      simpa using stored
    · have dispatches := settled (after.of_put running fun hf ↦ absurd hf.symm own)
      rwa [PyFunction.Dispatches, System.put_shared, (change g).1, (change g).2, if_neg own, if_neg own]
  all_goals grind [Pc.engaged, ChangesDispatch]

theorem DispatchInv.unpin (running : s.tasks thread = some ⟨f, call, .unpin⟩)
    (htask : ∀ t' ∈ next, t'.pc = .pollTier) :
    DispatchInv (s.put thread next (s.shared.unpin f)) := by
  obtain ⟨_, _, _, _, _, _, _, _, settled⟩ := inv
  have isEngaged : Pc.unpin.engaged := rfl
  have idle : Pc.pollTier.engaged = false ∧ Pc.pollTier.claims = false ∧
      Pc.pollTier.holdsRequest = false ∧ Pc.pollTier.pendingStore = none := ⟨rfl, rfl, rfl, rfl⟩
  constructor
  case settled =>
    intro g after
    have dispatches := settled (after.of_put running fun _ ↦ rfl)
    grind
  all_goals grind [Pc.engaged]

theorem DispatchInv.start (idle : s.tasks thread = none)
    (probe : call.isProbe) :
    DispatchInv (s.put thread (some ⟨f, call, call.firstPc⟩) s.shared) := by
  obtain ⟨_, _, _, _, _, _, _, _, settled⟩ := inv
  have fresh : call.firstPc.engaged = false ∧ call.firstPc.claims = false ∧
      call.firstPc.holdsRequest = false ∧ call.firstPc.pendingStore = none := by
    cases call <;> first | exact ⟨rfl, rfl, rfl, rfl⟩ | cases probe
  constructor
  case settled =>
    intro g after
    refine settled fun other task running hf ↦ after other task ?_ hf
    grind
  all_goals grind

theorem DispatchInv.receive {request : CompileRequest} {queue : List CompileRequest}
    (idle : s.tasks .compiler = none)
    (pending' : s.shared.queue = request :: queue)
    (functions : shared.functions = s.shared.functions) (pins : shared.pins = s.shared.pins)
    (rest : shared.queue = queue) :
    DispatchInv (s.put .compiler
      (some ⟨request.function, .compile request.reason, .loopShutdown⟩) shared) := by
  obtain ⟨unique, queueAlone, queueNodup, claimed, heldPinned, queuePinned, uniqueStore, pending,
    settled⟩ := inv
  have fresh : Pc.loopShutdown.engaged = true ∧ Pc.loopShutdown.claims = false ∧
      Pc.loopShutdown.holdsRequest = true ∧ Pc.loopShutdown.pendingStore = none :=
    ⟨rfl, rfl, rfl, rfl⟩
  rw [pending'] at queueAlone queueNodup queuePinned
  constructor
  · grind
  · intro other task request' running mem same
    by_cases acting : other = .compiler
    · grind [List.nodup_cons]
    · grind
  · grind [List.nodup_cons]
  · grind
  · grind
  · grind
  · grind
  · grind
  · intro g after
    rw [System.put_shared, functions]
    refine settled fun other task running hf ↦ after other task ?_ hf
    grind

end Put

theorem dispatchInv_initial : DispatchInv {} := by
  constructor
  case settled =>
    intro f _
    rfl
  case queueNodup => exact List.nodup_nil
  all_goals grind

variable {sync : Bool} {s s' : System} {f : FunctionId}

variable {label : Label} {answer : Answer} {t : Task} {next : Option Task}

theorem DispatchInv.step (inv : DispatchInv s) (orderly : DispatchOrderly s label)
    (h : s.Step sync label s') : DispatchInv s' := by
  rcases h.cases with ⟨thread, f, call, idle, rfl, probe⟩ |
    ⟨thread, answer, task, shared, next, rfl, running, hadvance, rfl⟩ |
    ⟨request, queue, idle, hqueue, rfl⟩ | ⟨tasks, functions, pins, queue⟩
  · exact inv.start idle probe
  · obtain ⟨f, call, pc⟩ := task
    cases advance_effect hadvance with
    | quiet same pins queue htask finished => exact inv.quiet running same pins queue htask finished
    | requeue deferred hpc before change pins queue htask =>
      subst hpc htask
      obtain ⟨fSettled, notInFlight⟩ := orderly.requeue rfl running before
      exact inv.requeue running before fSettled notInFlight change pins queue
    | pin hpc hshared htask =>
      subst hpc hshared htask
      exact inv.pin running
    | send hpc hshared htask =>
      subst hpc hshared
      exact inv.send running htask
    | leave state notQueued engaged idle before change pins queue htask =>
      obtain ⟨task', rfl, hf, notClaims, holds, store⟩ := htask
      exact inv.leave running notQueued engaged idle before change pins queue hf notClaims holds store
    | deopt disable state hpc notQueued notTier1 before change pins queue htask =>
      subst hpc htask
      exact inv.deopt running notQueued notTier1 before (orderly.deopt rfl running before) change
        pins queue
    | store compiled entry hpc stored change pins queue htask =>
      obtain ⟨task', rfl, hf, notClaims, holds, idle⟩ := htask
      exact inv.store running hpc stored change pins queue hf notClaims holds idle
    | unpin hpc hshared htask =>
      subst hpc hshared
      exact inv.unpin running htask
  · exact inv.receive idle hqueue rfl rfl rfl
  · obtain ⟨shared, tasks'⟩ := s'
    obtain ⟨unique, queueAlone, queueNodup, claimed, heldPinned, queuePinned, uniqueStore, pending,
      settled⟩ := inv
    simp only at tasks functions pins queue
    subst tasks
    constructor <;> simp only [functions, pins, queue] <;> assumption

/-! ## The disabled state -/

theorem advance_disabled {s s' : Shared} (h : t.advance sync answer s = (s', next))
    (disabled : (s.functions f).tierState = .disabled) :
    (s'.functions f).tierState = .disabled := by
  cases advance_effect h with
  | quiet same => rw [(same f).1, disabled]
  | pin _ hshared | send _ hshared | unpin _ hshared =>
    rw [hshared]
    exact disabled
  | store _ _ _ _ change =>
    rw [(change f).1]
    split_ifs with own
    · rw [← own, disabled]
    · exact disabled
  | requeue _ _ before change | leave _ _ _ _ before change | deopt _ _ _ _ _ before change =>
    have different : f ≠ t.function := by
      rintro rfl
      rw [disabled] at before
      grind
    rw [(change f).1, if_neg different, disabled]

theorem System.Step.disabled (h : s.Step sync label s')
    (disabled : (s.shared.functions f).tierState = .disabled) :
    (s'.shared.functions f).tierState = .disabled := by
  rcases h.cases with ⟨_, _, _, -, rfl, -⟩ | ⟨_, _, _, _, _, -, -, hadvance, rfl⟩ |
    ⟨_, _, -, -, rfl⟩ | ⟨-, functions, -, -⟩
  · exact disabled
  · exact advance_disabled hadvance disabled
  · exact disabled
  · rwa [functions]

/-- The states that further steps can lead to. -/
def System.Later (sync : Bool) : System → System → Prop :=
  Relation.ReflTransGen fun s s' ↦ ∃ label, s.Step sync label s'

theorem System.Later.disabled (later : s.Later sync s')
    (disabled : (s.shared.functions f).tierState = .disabled) :
    (s'.shared.functions f).tierState = .disabled := by
  induction later with
  | refl => exact disabled
  | tail _ step ih => exact step.choose_spec.disabled ih

/-! ## Every run -/

/-- Functions with a request in flight are pinned, the disabled state is final, and once all
operations have finished the dispatch cells hold compiled code exactly in the compiled state. -/
structure System.Sound (sync : Bool) (s : System) : Prop where
  pinned : ∀ f, s.InFlight f → f ∈ s.shared.pins
  disabledFinal : ∀ f, (s.shared.functions f).tierState = .disabled →
    ∀ s', s.Later sync s' → (s'.shared.functions f).tierState = .disabled
  dispatched : s.Quiescent → ∀ f,
    ((∃ compilation, (s.shared.functions f).entry = .tier1 compilation) ↔
      (s.shared.functions f).tierState = .tier1) ∧
    ((s.shared.functions f).tierState ≠ .tier1 → (s.shared.functions f).entry = .tier0)

theorem PyFunction.Dispatches.iff {fn : PyFunction} (h : fn.Dispatches) :
    ((∃ compilation, fn.entry = .tier1 compilation) ↔ fn.tierState = .tier1) ∧
    (fn.tierState ≠ .tier1 → fn.entry = .tier0) := by
  unfold Dispatches at h
  split_ifs at h with compiled
  · exact ⟨⟨fun _ ↦ compiled, fun _ ↦ h⟩, fun other ↦ absurd compiled other⟩
  · refine ⟨⟨?_, fun other ↦ absurd other compiled⟩, fun _ ↦ h⟩
    rintro ⟨compilation, isTier1⟩
    rw [h] at isTier1
    cases isTier1

theorem tier_machine_sound {sync : Bool} {s : System}
    (reachable : System.Reachable sync DispatchOrderly s) : s.Sound sync := by
  have inv : DispatchInv s := by
    refine reachable.invariant DispatchInv ?_ fun _ _ _ inv orderly h ↦ inv.step orderly h
    rintro _ rfl
    exact dispatchInv_initial
  constructor
  · rintro f (⟨request, mem, rfl⟩ | ⟨thread, task, running, rfl, holds⟩)
    · exact inv.queuePinned mem
    · exact inv.heldPinned running holds
  · exact fun f disabled s' later ↦ later.disabled disabled
  · intro quiescent f
    have settled : s.Settled f := by
      intro thread task running
      rw [quiescent.1 thread] at running
      cases running
    exact (inv.settled settled).iff

/-! ## A single thread -/

/-- A thread repeats an operation that takes `count` atomic steps. -/
def repeated (times thread : ℕ) (call : Call) (count : ℕ) : List Label :=
  (List.replicate times (.start thread 0 call :: advances (.mutator thread) count)).flatten

def compiled (id : ℕ) : Answer := { compiled := some ⟨id, none⟩ }

/-- Sixteen calls queue a function. -/
def firstRequest : List Label :=
  [.setHook true, .setDriver true] ++ repeated 15 0 .bumpCall 2 ++ repeated 1 0 .bumpCall 10

/-- Only one mutator has a task, and no request waits in the channel. -/
structure System.Alone (s : System) : Prop where
  tasks : ∀ other ≠ .mutator 0, s.tasks other = none
  queue : s.shared.queue = []

theorem System.Alone.orderly (alone : s.Alone) (label : Label) : DispatchOrderly s label := by
  have acting {thread : ThreadId} {task : Task} (running : s.tasks thread = some task) :
      thread = .mutator 0 := by
    by_contra different
    rw [alone.tasks thread different] at running
    cases running
  have settled {thread : ThreadId} {task : Task} (running : s.tasks thread = some task)
      (idle : task.pc.pendingStore = none) : s.Settled task.function := by
    intro other task' running' _
    have same : other = thread := (acting running').trans (acting running).symm
    rw [same, running] at running'
    rw [← Option.some.inj running', idle]
  constructor
  · intro thread answer f call deferred _ running _
    refine ⟨settled running rfl, ?_⟩
    rintro (⟨request, mem, -⟩ | ⟨other, task, running', -, holds⟩)
    · rw [alone.queue] at mem
      cases mem
    · have same : other = thread := (acting running').trans (acting running).symm
      rw [same, running] at running'
      rw [← Option.some.inj running'] at holds
      cases holds
  · intro thread answer f call disable _ running _
    exact settled running rfl

theorem advance_sync_queue {s s' : Shared} (h : t.advance true answer s = (s', next)) :
    s'.queue = s.queue := by
  cases advance_effect h with
  | send pc hshared htask =>
    obtain ⟨f, call, _⟩ := t
    subst pc
    simp only [Task.advance, Task.goto, if_true, Prod.mk.injEq] at h
    rw [← h.1]
  | pin _ hshared | unpin _ hshared => rw [hshared]; rfl
  | quiet _ _ queue | requeue _ _ _ _ _ queue | leave _ _ _ _ _ _ _ queue
  | deopt _ _ _ _ _ _ _ _ queue | store _ _ _ _ _ _ queue => exact queue

theorem System.Alone.step (alone : s.Alone) (step : s.step? true label = some s')
    (actor : label.actor = none ∨ label.actor = some (.mutator 0)) : s'.Alone := by
  constructor
  · intro other different
    rw [System.step?_tasks step, alone.tasks other different]
    grind
  · rcases System.Step.cases step with ⟨_, _, _, -, rfl, -⟩ | ⟨_, _, _, _, _, -, -, hadvance, rfl⟩ |
      ⟨request, queue, -, pending, rfl⟩ | ⟨-, -, -, queue⟩
    · exact alone.queue
    · exact (advance_sync_queue hadvance).trans alone.queue
    · rw [alone.queue] at pending
      cases pending
    · exact queue.trans alone.queue

/-- One thread makes a function hot and compiles it itself. -/
theorem tier_machine_sound_compiled :
    ∃ s : System, (s.shared.functions 0).tierState = .tier1 ∧ s.Sound true := by
  let labels := firstRequest ++ advances (.mutator 0) 10 (compiled 0)
  have evaluated : (Transition.runLabels
      (fun _ label ↦ decide (label.actor = none ∨ label.actor = some (.mutator 0)))
      (System.step? true) {} labels).any (fun s ↦
        (s.shared.functions 0).tierState = .tier1) = true := by decide
  obtain ⟨s, hrun, state⟩ := exists_of_any evaluated
  have reached := Transition.runLabels_invariant
    (fun s ↦ System.Reachable true DispatchOrderly s ∧ s.Alone)
    (fun s label s' ⟨reachable, alone⟩ actor step ↦
      ⟨.next reachable (alone.orderly label) step, alone.step step (of_decide_eq_true actor)⟩)
    ⟨.start rfl, fun _ _ ↦ rfl, rfl⟩ hrun
  exact ⟨s, state, tier_machine_sound reached.1⟩

/-! ## Overlapping operations -/

/-- An epoch of compiled code that thrashes. -/
def thrash : List Label := repeated 63 0 .deoptNote 1 ++ repeated 1 0 .deoptNote 8

/-- Thirty-two calls queue it again after one epoch. -/
def secondRequest : List Label := repeated 31 0 .bumpCall 3 ++ repeated 1 0 .bumpCall 13

/-- The compiler unpins the function for its first request after the second has been sent. -/
def lostPin : List Label :=
  firstRequest ++ .receive :: advances .compiler 10 (compiled 0) ++ thrash ++ secondRequest ++
  advances .compiler 1

/-- Frames of the first epoch count to the threshold again, and the last of them deoptimizes the
function between the transition and the entry store of its second installation. -/
def staleCell : List Label :=
  firstRequest ++ .receive :: advances .compiler 11 (compiled 0) ++ thrash ++
  repeated 63 0 .deoptNote 1 ++ secondRequest ++ .receive :: advances .compiler 5 (compiled 1) ++
  repeated 1 0 .deoptNote 8 ++ advances .compiler 6

set_option maxRecDepth 8192 in
theorem tier_machine_unsound :
    (¬∀ s, System.Reachable false (fun _ _ ↦ True) s → ∀ f, s.InFlight f → f ∈ s.shared.pins) ∧
    ¬∀ s, System.Reachable false (fun _ _ ↦ True) s → s.Quiescent → ∀ f,
      ((∃ compilation, (s.shared.functions f).entry = .tier1 compilation) ↔
        (s.shared.functions f).tierState = .tier1) := by
  constructor
  · intro claim
    have evaluated : (System.run? false {} lostPin).any (fun s ↦
        s.shared.queue = [⟨0, 0⟩] ∧ s.shared.pins = []) = true := by decide
    obtain ⟨s, hrun, queue, pins⟩ := exists_of_any evaluated
    have inFlight : s.InFlight 0 := .inl ⟨⟨0, 0⟩, by simp [queue], rfl⟩
    have pinned := claim s (.runLabels (fun _ _ _ ↦ trivial) (.start rfl) hrun) 0 inFlight
    rw [pins] at pinned
    cases pinned
  · intro claim
    have evaluated : (Transition.runLabels (fun _ label ↦ decide (label.actor = none ∨
        label.actor = some .compiler ∨ label.actor = some (.mutator 0)))
        (System.step? false) {} staleCell).any (fun s ↦
        s.tasks .compiler = none ∧ s.tasks (.mutator 0) = none ∧ s.shared.queue = [] ∧
        (s.shared.functions 0).tierState = .deferred ∧
        (s.shared.functions 0).entry = .tier1 1) = true := by decide
    obtain ⟨s, hrun, compiler, mutator, queue, state, entry⟩ := exists_of_any evaluated
    have quiescent : s.Quiescent := by
      refine ⟨fun thread ↦ ?_, queue⟩
      by_cases acting : thread = .compiler ∨ thread = .mutator 0
      · rcases acting with rfl | rfl
        · exact compiler
        · exact mutator
      · refine Transition.runLabels_invariant (·.tasks thread = none) ?_ rfl hrun
        intro s label s' idle actor step
        rw [System.step?_tasks step, idle]
        grind
    have agrees := claim s (.runLabels (fun _ _ _ ↦ trivial) (.start rfl) hrun) quiescent 0
    rw [state, entry] at agrees
    simp at agrees

end Pon.Tier
