import Pon.Generator.Progress

/-!
# The protocol of generators

What holds of every generator in every machine that the steps reach, whatever the bodies do within
their contract and whatever they call, also on themselves. A body polls before it stores that it runs,
so this asks of the signal handlers there that they leave the generator alone.
-/

namespace Pon.Generator

variable {Gen Await Object : Type} [DecidableEq Gen] [DecidableEq Await] [DecidableEq Object]
  {exceptions : Exceptions Object} {m m' : Machine Gen Await Object} {g : Gen}

/-- The machines of runs whose steps all meet a guard. -/
def Machine.RunBy (guard : Machine Gen Await Object → Event Gen Await Object → Prop)
    (exceptions : Exceptions Object) (m : Machine Gen Await Object) : Prop :=
  Transition.Reachable Machine.Initial guard (fun m event m' ↦ m.step exceptions event = some m') m

/-- The machines of runs in which the polls of bodies are quiet. -/
def Machine.Reached (exceptions : Exceptions Object) (m : Machine Gen Await Object) : Prop :=
  m.RunBy Machine.PollsQuiet exceptions

/-- The machines that such steps lead to. -/
def Machine.Later (exceptions : Exceptions Object) :
    Machine Gen Await Object → Machine Gen Await Object → Prop :=
  Relation.ReflTransGen fun m m' ↦ ∃ event, m.PollsQuiet event ∧ m.step exceptions event = some m'

theorem Machine.Reached.inv (h : m.Reached exceptions) : m.Inv := by
  refine Transition.Reachable.invariant Machine.Inv (fun _ ↦ Machine.Initial.inv) ?_ h
  exact fun _ _ _ hinv hquiet hstep ↦ hinv.move hquiet (move_of_step hstep)

theorem Machine.Later.extends (h : m.Inv) (hlater : m.Later exceptions m') :
    Extends exceptions m m' ∧ m'.Inv := by
  induction hlater with
  | refl => exact ⟨.refl, h⟩
  | tail _ hstep ih =>
    obtain ⟨event, hquiet, hstep⟩ := hstep
    exact ⟨ih.1.trans (.move ih.2 (move_of_step hstep)), ih.2.move hquiet (move_of_step hstep)⟩

theorem Machine.Reached.noteOk (h : m.Reached exceptions) {note : Note Gen Await Object}
    (hmem : note ∈ m.log) : ∃ start : Machine Gen Await Object, NoteOk exceptions start m note := by
  induction h generalizing note with
  | start hinitial =>
    rw [hinitial.log] at hmem
    cases hmem
  | @next m m' event hreached _ hstep ih =>
    have hextends := Extends.move (Machine.Reached.inv hreached) (move_of_step hstep)
    obtain ⟨notes, hlog, hnotes⟩ := hextends.log
    rw [hlog] at hmem
    rcases List.mem_append.mp hmem with hmem | hmem
    · obtain ⟨start, hok⟩ := ih hmem
      refine ⟨start, ?_⟩
      cases note with
      | closed g => exact hextends.closed g hok
      | called | ended | delivered | stepped | begun | awaited | answered => exact hok
    · exact ⟨m, hnotes note hmem⟩

/-- The three operations on a generator. -/
inductive Operation (Object : Type)
  | send (value : Option Object)
  | throw (exc : Object)
  | close

def Operation.call (g : Gen) : Operation Object → Call Gen Await Object
  | .send value => .send g value
  | .throw exc => .throw g (some exc)
  | .close => .close g

/-- The error of a call that is rejected: the generator is executing, or it has not started and is
sent a value. -/
def rejection (exceptions : Exceptions Object) (generator : PyGenerator Object)
    (operation : Operation Object) : Option (Outcome Object) :=
  if generator.frame.resumeState = resumeRunning then
    match operation with
    | .close => some (raiseError exceptions .valueError "generator already executing")
    | .send _ | .throw _ =>
      some (raiseError exceptions .valueError (kindNoun generator.kind ++ " already executing"))
  else if generator.frame.resumeState = resumeStart then
    match operation with
    | .send value =>
      if sendsValue exceptions value then
        some (raiseError exceptions .typeError
          ("can't send non-None value to a just-started " ++ kindNoun generator.kind))
      else none
    | .throw _ | .close => none
  else none

/-- Code gets its answer at once. -/
theorem reply_code (h : m.codeRuns = true) (m' : Machine Gen Await Object)
    (ending : Option (Ending Object)) (outcome : Outcome Object) :
    m'.reply exceptions ending outcome m.stack =
      { m' with stack := m.stack, log := m'.log ++ [.answered outcome] } := by
  unfold Machine.codeRuns at h
  split at h
  iterate 4
    · rename_i hstack
      rw [hstack, Machine.reply]
      all_goals simp
  · cases h

variable {outcome : Outcome Object}

/-- An answer of the driver itself goes to the code that called. -/
theorem resume_code (hcode : m.codeRuns = true) {sent thrown : Option Object}
    (h : ponGenResume exceptions (m.generators g) sent thrown = .answers outcome) :
    m.resume exceptions g sent thrown = m.note (.answered outcome) := by
  simp only [Machine.resume, h]
  rw [reply_code hcode]
  rfl

theorem call_of_rejection (h : m.Inv) (hcode : m.codeRuns = true) {operation : Operation Object}
    (hrejection : rejection exceptions (m.generators g) operation = some outcome) :
    m.call exceptions (operation.call g) = m.note (.answered outcome) := by
  by_cases hrunning : (m.generators g).frame.resumeState = resumeRunning
  · rw [rejection.eq_def, if_pos hrunning] at hrejection
    cases operation with
    | close =>
      have hclose : ponGenClose exceptions (m.generators g) =
          .refuses (raiseError exceptions .valueError "generator already executing") := if_pos hrunning
      simp only [Operation.call, Machine.call, Machine.close, hclose]
      rw [reply_code hcode, ← Option.some.inj hrejection]
      rfl
    | send value => exact resume_code hcode ((if_pos hrunning).trans (by rw [← Option.some.inj hrejection]))
    | throw exc => exact resume_code hcode ((if_pos hrunning).trans (by rw [← Option.some.inj hrejection]))
  · rw [rejection.eq_def, if_neg hrunning] at hrejection
    split at hrejection
    · rename_i hstart
      cases operation with
      | throw | close => cases hrejection
      | send value =>
        have hsends : sendsValue exceptions value = true := by
          by_contra hsends
          simp [hsends] at hrejection
        have hended : ¬((m.generators g).frame.resumeState = resumeFinished ∨
            (m.generators g).closed = true) := by
          intro hended
          have hfinished := (h.gens g).finished hended
          rw [hstart] at hfinished
          exact absurd hfinished (by decide)
        have hguard : (m.generators g).frame.resumeState = resumeStart ∧
            sendsValue exceptions value = true ∧ (none : Option Object) = none := ⟨hstart, hsends, rfl⟩
        simp only [hsends, if_true] at hrejection
        refine resume_code hcode ?_
        rw [← Option.some.inj hrejection]
        exact (if_neg hrunning).trans ((if_neg hended).trans (if_pos hguard))
    · cases hrejection

theorem call_close_of_closed (h : m.Inv) (hcode : m.codeRuns = true)
    (hclosed : (m.generators g).closed = true) :
    m.call exceptions (.close g) =
      { m with log := m.log ++ [.closed g, .answered (.returned (.object exceptions.none))] } := by
  have hfinished := (h.gens g).closed hclosed
  have hrunning : (m.generators g).frame.resumeState ≠ resumeRunning := by
    rw [hfinished]
    exact resumeRunning_ne_resumeFinished.symm
  have hclose : ponGenClose exceptions (m.generators g) = .closed (m.generators g) := by
    refine (if_neg hrunning).trans ((if_pos (.inl hclosed)).trans ?_)
    rw [if_pos hfinished, ← hclosed]
  have hsame : m.setGenerator g (m.generators g) = m := by
    rw [Machine.setGenerator, Function.update_eq_self]
  simp only [Machine.call, Machine.close, hclose, hsame]
  rw [reply_code hcode]
  simp [Machine.note]

/-- The protocol of one generator. -/
structure Protocol (exceptions : Exceptions Object) (m : Machine Gen Await Object) (g : Gen) : Prop where
  /-- At most one activation exists. -/
  activation : (activities g m.stack).length ≤ 1
  /-- The body is not entered again. -/
  ended : (m.generators g).Ended → ∀ m', m.Later exceptions m' →
    (m'.generators g).Ended ∧ accepted g m'.log = accepted g m.log
  /-- Every payload was delivered at its suspension point and is gone, but for one that an activation
  has not consumed yet. -/
  payload : accepted g m.log = delivered g m.log ∧ (m.generators g).frame.sentValue = none ∧
      (m.generators g).frame.thrownExc = none ∨
    ∃ entry, accepted g m.log = delivered g m.log ++
        [(entry, (m.generators g).frame.sentValue, (m.generators g).frame.thrownExc)] ∧
      (activities g m.stack = [(entry, .called)] ∨ activities g m.stack = [(entry, .running false)])
  /-- A rejected call changes nothing. -/
  rejected : ∀ operation outcome, rejection exceptions (m.generators g) operation = some outcome →
    m.codeRuns = true → m.step exceptions (.call (operation.call g)) = some (m.note (.answered outcome))
  /-- A generator that was closed has finished. -/
  closed : .closed g ∈ m.log → (m.generators g).closed = true ∧
    (m.generators g).frame.resumeState = resumeFinished
  /-- Closing it again changes nothing. -/
  closing : (m.generators g).closed = true → m.codeRuns = true →
    m.step exceptions (.call (.close g)) =
      some { m with log := m.log ++ [.closed g, .answered (.returned (.object exceptions.none))] }
  empty : (m.generators g).frame.resumeState = resumeFinished → (m.generators g).frame.Empty
  /-- A body that comes back with a `StopIteration` has returned. -/
  exhausted : ∀ ending outcome, .ended g ending outcome ∈ m.log →
    outcome.isRaised exceptions .stopIteration = true → ending = .finished
  /-- The driver itself ends an iteration only when the generator has ended. -/
  answers : ∀ sent thrown outcome,
    ponGenResume exceptions (m.generators g) sent thrown = .answers outcome →
      outcome.isRaised exceptions .stopIteration = true → (m.generators g).Ended

theorem generator_protocol (h : m.Reached exceptions) (g : Gen) : Protocol exceptions m g where
  activation := by
    have hg := h.inv.gens g
    rcases hacts : activities g m.stack with _ | ⟨⟨entry, phase⟩, rest⟩
    · exact Nat.zero_le 1
    · rw [hacts] at hg
      rw [hg.rest_eq_nil]
      exact Nat.le_refl 1
  ended := by
    intro hended m' hlater
    have hextends := (Machine.Later.extends h.inv hlater).1
    obtain ⟨notes, hlog, hnotes⟩ := hextends.log
    refine ⟨hextends.ended hended, ?_⟩
    have hnone : accepted g notes = [] := by
      rw [accepted, List.filterMap_eq_nil_iff]
      intro note hmem
      have hok := hnotes note hmem
      cases note with
      | called g' =>
        by_cases heq : g' = g
        · subst heq
          exact absurd hended hok
        · simp [heq]
      | delivered | ended | stepped | closed | begun | awaited | answered => rfl
    rw [hlog, accepted, List.filterMap_append]
    exact (congrArg (accepted g m.log ++ ·) hnone).trans (List.append_nil _)
  payload := by
    have hg := h.inv.gens g
    rcases hacts : activities g m.stack with _ | ⟨⟨entry, phase⟩, rest⟩
    · rw [hacts] at hg
      exact .inl ⟨hg.phase.2.2.2, hg.phase.2.1, hg.phase.2.2.1⟩
    · rw [hacts] at hg
      have hnil := hg.rest_eq_nil
      subst hnil
      cases phase with
      | called =>
        obtain ⟨-, -, -, haccepted⟩ := hg.phase
        exact .inr ⟨entry, haccepted, .inl rfl⟩
      | running consumed =>
        cases consumed with
        | false => exact .inr ⟨entry, hg.phase.2, .inr rfl⟩
        | true => exact .inl ⟨hg.phase.2.2.2, hg.phase.2.1, hg.phase.2.2.1⟩
      | stepping | foreign | passing =>
        exact .inl ⟨hg.phase.2.2.2, hg.phase.2.1, hg.phase.2.2.1⟩
  rejected := fun operation outcome hrejection hcode ↦
    (if_pos hcode).trans (congrArg some (call_of_rejection h.inv hcode hrejection))
  closed := by
    intro hmem
    obtain ⟨start, hclosed⟩ := h.noteOk hmem
    exact ⟨hclosed, (h.inv.gens g).closed hclosed⟩
  closing := fun hclosed hcode ↦
    (if_pos hcode).trans (congrArg some (call_close_of_closed h.inv hcode hclosed))
  empty := (h.inv.gens g).empty
  exhausted := by
    intro ending outcome hmem hraised
    obtain ⟨start, hok⟩ := h.noteOk hmem
    exact hok hraised
  answers := fun sent thrown outcome hanswers hraised ↦ ended_of_answers hanswers (.inl hraised)

/-- Objects for runs of fixed programs. -/
inductive Sample
  | none
  | number (n : ℕ)
  | error (kind : ExceptionKind)
deriving DecidableEq

def sampleExceptions : Exceptions Sample where
  none := .none
  isInstance object kind := object = .error kind
  isGeneratorExit object := object = .error .generatorExit
  raise
    | .error kind => .error kind
    | _ => .error .typeError
  make kind _ := .error kind
  make_isInstance kind _ kind' := by simp [eq_comm]
  make_isGeneratorExit _ := by simp
  raise_make _ _ := rfl

/-- Generators that have not started. Number 0 is an async generator. The first awaitable is one of its
`asend` and the others are of its `aclose`. -/
def sampleMachine : Machine ℕ ℕ Sample where
  generators g := .new (if g = 0 then .asyncGenerator else .generator) []
  awaitables a := { agen := 0, payload := none, mode := if a = 0 then .send else .close, state := .start }
  delegationYield := false
  stack := []
  log := []

theorem sampleMachine_initial : sampleMachine.Initial where
  generators _ := ⟨_, _, rfl⟩
  awaitables _ := ⟨rfl, rfl⟩
  delegationYield := rfl
  stack := rfl
  log := rfl

def runSample (check : Machine ℕ ℕ Sample → Event ℕ ℕ Sample → Bool)
    (events : List (Event ℕ ℕ Sample)) : Option (Machine ℕ ℕ Sample) :=
  Transition.runLabels check (fun m event ↦ m.step sampleExceptions event) sampleMachine events

variable {events : List (Event ℕ ℕ Sample)}

theorem runBy_of_runSample {check : Machine ℕ ℕ Sample → Event ℕ ℕ Sample → Bool}
    {guard : Machine ℕ ℕ Sample → Event ℕ ℕ Sample → Prop}
    {m : Machine ℕ ℕ Sample} (hcheck : ∀ m event, check m event = true → guard m event)
    (h : runSample check events = some m) : m.RunBy guard sampleExceptions :=
  Transition.Reachable.runLabels hcheck (.start sampleMachine_initial) h

theorem reached_of_runSample {m : Machine ℕ ℕ Sample}
    (h : runSample (fun m event ↦ m.PollsQuiet event) events = some m) : m.Reached sampleExceptions :=
  runBy_of_runSample (fun _ _ ↦ of_decide_eq_true) h

/-- A generator yields, calls itself while it runs and is closed after its next yield. -/
def closeEvents : List (Event ℕ ℕ Sample) :=
  [.call (.send 1 none), .enter, .consume, .suspend 1 (.number 7),
    .call (.send 1 (some (.number 8))), .enter, .consume, .call (.send 1 none),
    .suspend 2 (.number 9), .call (.close 1), .enter, .consume,
    .unwind (some (.exception (.error .generatorExit)))]

theorem generator_protocol_close : ∃ m : Machine ℕ ℕ Sample, .closed 1 ∈ m.log ∧
    delivered 1 m.log = [(0, none, none), (1, some (.number 8), none),
      (2, none, some (.error .generatorExit))] ∧
    Protocol sampleExceptions m 1 := by
  have hfinal : (runSample (fun m event ↦ m.PollsQuiet event) closeEvents).map (fun m ↦
      (decide (.closed 1 ∈ m.log), delivered 1 m.log)) = some (true, [(0, none, none),
        (1, some (.number 8), none), (2, none, some (.error .generatorExit))]) := by decide
  obtain ⟨m, hrun, hfinal⟩ := Option.map_eq_some_iff.mp hfinal
  rw [Prod.mk.injEq, decide_eq_true_eq] at hfinal
  exact ⟨m, hfinal.1, hfinal.2, generator_protocol (reached_of_runSample hrun) 1⟩

/-- A signal handler runs at the poll of a body that was sent 8, and sends 9 to the same generator. -/
def handlerEvents : List (Event ℕ ℕ Sample) :=
  [.call (.send 1 none), .enter, .consume, .suspend 1 (.number 7),
    .call (.send 1 (some (.number 8))), .call (.send 1 (some (.number 9))), .enter, .consume]

/-- Then the handler returns, and the body goes on. -/
def afterHandlerEvents : List (Event ℕ ℕ Sample) :=
  handlerEvents ++ [.suspend 2 (.number 10), .enter, .consume, .suspend 3 (.number 11)]

/-- The body runs twice at a time, and the first of the two values arrives nowhere. -/
theorem handler_resumes_generator :
    (∃ m : Machine ℕ ℕ Sample, m.RunBy (fun _ _ ↦ True) sampleExceptions ∧
      (activities 1 m.stack).length = 2 ∧ ¬Protocol sampleExceptions m 1) ∧
    ∃ m : Machine ℕ ℕ Sample, m.RunBy (fun _ _ ↦ True) sampleExceptions ∧
      accepted 1 m.log = [(0, none, none), (1, some (.number 8), none), (1, some (.number 9), none)] ∧
      delivered 1 m.log = [(0, none, none), (1, some (.number 9), none), (2, none, none)] ∧
      ¬Protocol sampleExceptions m 1 := by
  have hreached {events : List (Event ℕ ℕ Sample)} {m : Machine ℕ ℕ Sample}
      (h : runSample (fun _ _ ↦ true) events = some m) : m.RunBy (fun _ _ ↦ True) sampleExceptions :=
    runBy_of_runSample (fun _ _ _ ↦ trivial) h
  constructor
  · have hfinal : (runSample (fun _ _ ↦ true) handlerEvents).map (fun m ↦
        (activities 1 m.stack).length) = some 2 := by decide
    obtain ⟨m, hrun, hfinal⟩ := Option.map_eq_some_iff.mp hfinal
    exact ⟨m, hreached hrun, hfinal, fun h ↦ absurd h.activation (by simp [hfinal])⟩
  · have hfinal : (runSample (fun _ _ ↦ true) afterHandlerEvents).map (fun m ↦
        (decide (accepted 1 m.log = [(0, none, none), (1, some (.number 8), none),
            (1, some (.number 9), none)]),
          decide (delivered 1 m.log = [(0, none, none), (1, some (.number 9), none),
            (2, none, none)]))) = some (true, true) := by decide
    obtain ⟨m, hrun, hfinal⟩ := Option.map_eq_some_iff.mp hfinal
    rw [Prod.mk.injEq, decide_eq_true_eq, decide_eq_true_eq] at hfinal
    obtain ⟨haccepted, hdelivered⟩ := hfinal
    refine ⟨m, hreached hrun, haccepted, hdelivered, fun h ↦ ?_⟩
    rcases h.payload with ⟨heq, -⟩ | ⟨entry, heq, -⟩
    · rw [haccepted, hdelivered] at heq
      exact absurd heq (by decide)
    · rw [haccepted, hdelivered] at heq
      exact absurd (congrArg List.length heq) (by simp)

end Pon.Generator
