import Pon.Generator.Awaitable

/-!
# Generators that drive each other

One thread, its generators and the awaitables of its async generators. What runs is a stack of
activities with the innermost first, and code runs when the stack is empty, in a body, or in a delegate
that is not a generator. A body is any that keeps the contract of frames: it polls for signals and
stores the running state, it consumes the payload before it leaves, it stores a suspend state with a
yield, and it ends through `pon_gen_finish` or `pon_gen_unwind`. The poll comes before the body reads
its state, and the signal handlers that run there are code as well. After a delegation step that
returned a value the emitted code suspends with that value and calls nothing in between.
-/

namespace Pon.Generator

/-- What a delegation step forwards. -/
inductive Forward (Object : Type)
  | step
  | throw (exc : Object)
  | close (exc : Object)

/-- Where a body is. One that was called is at its poll. -/
inductive Phase (Gen Object : Type)
  | called
  | running (consumed : Bool)
  | stepping (delegate : Gen) (forward : Forward Object)
  | foreign (forward : Forward Object)
  | passing (value : Boxed Object)

/-- A body with the state that it was called in, or a helper that waits for `pon_gen_resume`. -/
inductive Activity (Gen Await Object : Type)
  | body (generator : Gen) (entry : UInt32) (phase : Phase Gen Object)
  | closing (generator : Gen)
  | awaiting (awaitable : Await)

/-- How a body came back. -/
inductive Ending (Object : Type)
  | yielded (value : Object)
  | delegated (value : Boxed Object)
  | finished
  | unwound
deriving DecidableEq

/-- What has happened. A payload is noted with the state of the suspension point. -/
inductive Note (Gen Await Object : Type)
  | called (generator : Gen) (entry : UInt32) (sent thrown : Option Object)
  | delivered (generator : Gen) (entry : UInt32) (sent thrown : Option Object)
  | ended (generator : Gen) (ending : Ending Object) (outcome : Outcome Object)
  | stepped (generator : Gen) (outcome : Outcome Object)
  | closed (generator : Gen)
  | begun (awaitable : Await)
  | awaited (awaitable : Await) (ending : Option (Ending Object)) (verdict : Verdict Object)
  | answered (outcome : Outcome Object)
deriving DecidableEq

structure Machine (Gen Await Object : Type) where
  generators : Gen → PyGenerator Object
  awaitables : Await → Awaitable Gen Object
  delegationYield : Bool
  stack : List (Activity Gen Await Object)
  log : List (Note Gen Await Object)

/-- Fresh generators, and awaitables that nobody has stepped. -/
structure Machine.Initial {Gen Await Object : Type} (m : Machine Gen Await Object) : Prop where
  generators : ∀ g, ∃ kind slots, m.generators g = .new kind slots
  awaitables : ∀ a, (m.awaitables a).state = .start ∧
    (m.generators (m.awaitables a).agen).kind = .asyncGenerator
  delegationYield : m.delegationYield = false
  stack : m.stack = []
  log : m.log = []

/-- A call that code makes. -/
inductive Call (Gen Await Object : Type)
  | send (generator : Gen) (value : Option Object)
  | throw (generator : Gen) (exc : Option Object)
  | close (generator : Gen)
  | awaitStep (awaitable : Await) (sent thrown : Option Object)
  | awaitClose (awaitable : Await)

/-- A step of what is on top. -/
inductive Event (Gen Await Object : Type)
  | call (call : Call Gen Await Object)
  | interrupt (pending : Pending Object)
  | enter
  | consume
  | setSlot (index : ℕ) (value : Option Object)
  | delegate (delegate : Option Gen)
  | suspend (state : UInt32) (value : Object)
  | pass (state : UInt32)
  | finish (retval : Option Object)
  | unwind (pending : Option (Pending Object))
  | foreignReturn (value : Object)
  | foreignRaise (pending : Pending Object)
  | foreignMissing

namespace Machine

variable {Gen Await Object : Type} [DecidableEq Gen] [DecidableEq Await] [DecidableEq Object]
  (exceptions : Exceptions Object) (m : Machine Gen Await Object)

def note (note : Note Gen Await Object) : Machine Gen Await Object :=
  { m with log := m.log ++ [note] }

def setGenerator (g : Gen) (generator : PyGenerator Object) : Machine Gen Await Object :=
  { m with generators := Function.update m.generators g generator }

def setFrame (g : Gen) (frame : GenFrame Object) : Machine Gen Await Object :=
  m.setGenerator g { m.generators g with frame }

/-- Marks a generator closed. -/
def setClosed (g : Gen) : Machine Gen Await Object :=
  (m.setGenerator g { m.generators g with closed := true }).note (.closed g)

def setAwaitable (a : Await) (state : AwaitableState) : Machine Gen Await Object :=
  { m with awaitables := Function.update m.awaitables a { m.awaitables a with state } }

/-- Code can go on. At the poll of a body it is that of a signal handler. -/
def codeRuns : Bool :=
  match m.stack with
  | [] | .body _ _ .called :: _ | .body _ _ (.running _) :: _ | .body _ _ (.foreign _) :: _ => true
  | _ => false

/-- The end of `pon_gen_delegate_step`: a value arms the flag. -/
def stepped (g : Gen) (entry : UInt32) (rest : List (Activity Gen Await Object))
    (outcome : Outcome Object) : Machine Gen Await Object :=
  match outcome with
  | .returned value =>
    { m with
      delegationYield := true
      stack := .body g entry (.passing value) :: rest
      log := m.log ++ [.stepped g outcome] }
  | .raised _ =>
    { m with
      stack := .body g entry (.running true) :: rest
      log := m.log ++ [.stepped g outcome] }

end Machine

/-- When the delegate was closed, the exception goes on. -/
def Forward.outcome {Object : Type} (exceptions : Exceptions Object) :
    Forward Object → Outcome Object → Outcome Object
  | .close exc, .returned _ => raiseObject exceptions exc
  | _, outcome => outcome

namespace Machine

variable {Gen Await Object : Type} [DecidableEq Gen] [DecidableEq Await] [DecidableEq Object]
  (exceptions : Exceptions Object) (m : Machine Gen Await Object)

/-- An awaitable has classified what came back. -/
def settle (a : Await) (ending : Option (Ending Object)) (verdict : Verdict Object) :
    Machine Gen Await Object :=
  let agen := (m.awaitables a).agen
  let m := (m.setAwaitable a (verdict.state (m.awaitables a).state)).note (.awaited a ending verdict)
  if verdict = .closed then m.setClosed agen else m

/-- `pon_gen_resume` returns to the activities that wait for it, down to where code runs. -/
def reply (m : Machine Gen Await Object) (ending : Option (Ending Object)) (outcome : Outcome Object) :
    List (Activity Gen Await Object) → Machine Gen Await Object
  | .closing g :: rest =>
    let result := ponGenClosed exceptions outcome
    (if result.1 then m.setClosed g else m).reply none result.2 rest
  | .awaiting a :: rest =>
    let verdict := classifyAgenStep exceptions (m.awaitables a).mode outcome
    (m.settle a ending verdict).reply none (verdict.outcome exceptions) rest
  | .body g entry (.stepping _ forward) :: rest =>
    m.stepped g entry rest (forward.outcome exceptions outcome)
  | stack => { m with stack, log := m.log ++ [.answered outcome] }

variable (g : Gen)

/-- A body leaves, and `pon_gen_resume` goes on. -/
def leave (rest : List (Activity Gen Await Object)) (ending : Ending Object)
    (outcome : Outcome Object) : Machine Gen Await Object :=
  let outcome := ponGenResumed (m.generators g).kind m.delegationYield outcome
  (m.note (.ended g ending outcome)).reply exceptions (some ending) outcome rest

/-- `pon_gen_resume` for who is on top. -/
def resume (sent thrown : Option Object) : Machine Gen Await Object :=
  match ponGenResume exceptions (m.generators g) sent thrown with
  | .answers outcome => m.reply exceptions none outcome m.stack
  | .calls generator =>
    let entry := generator.frame.resumeState
    { m.setGenerator g generator with
      delegationYield := false
      stack := .body g entry .called :: m.stack
      log := m.log ++ [.called g entry sent thrown] }

/-- `pon_gen_throw`. -/
def throw : Option Object → Machine Gen Await Object
  | some exc => m.resume exceptions g none (some exc)
  | none =>
    m.reply exceptions none (raiseError exceptions .typeError "generator throw exception is null")
      m.stack

/-- `pon_gen_close`. -/
def close : Machine Gen Await Object :=
  match ponGenClose exceptions (m.generators g) with
  | .refuses outcome => m.reply exceptions none outcome m.stack
  | .closed generator =>
    ((m.setGenerator g generator).note (.closed g)).reply exceptions none
      (.returned (.object exceptions.none)) m.stack
  | .throws exit =>
    { m with stack := .closing g :: m.stack }.resume exceptions g none (some exit)

/-- `async_gen_awaitable_step`. -/
def awaitStep (a : Await) (sent thrown : Option Object) : Machine Gen Await Object :=
  let awaitable := m.awaitables a
  if awaitable.state = .closed then
    m.reply exceptions none (awaitedTwice exceptions awaitable.mode) m.stack
  else
    let m := { (m.setAwaitable a .iter).note (.begun a) with stack := .awaiting a :: m.stack }
    match awaitable.agenCall exceptions sent thrown with
    | .send value => m.resume exceptions awaitable.agen value none
    | .throw exc => m.throw exceptions awaitable.agen exc

def call : Call Gen Await Object → Machine Gen Await Object
  | .send g value => m.resume exceptions g value none
  | .throw g exc => m.throw exceptions g exc
  | .close g => m.close exceptions g
  | .awaitStep a sent thrown => m.awaitStep exceptions a sent thrown
  | .awaitClose a =>
    (m.setAwaitable a .closed).reply exceptions none (.returned (.object exceptions.none)) m.stack

/-- What the frame's payload has the delegation step forward. -/
def forward : Forward Object :=
  match (m.generators g).frame.thrownExc with
  | some exc => if exceptions.isGeneratorExit exc then .close exc else .throw exc
  | none => .step

/-- The delegation step takes the payload out of the frame. -/
def takePayload (entry : UInt32) (consumed : Bool) : Machine Gen Await Object :=
  let frame := (m.generators g).frame
  let cleared := m.setFrame g frame.clear
  if consumed then cleared else cleared.note (.delivered g entry frame.sentValue frame.thrownExc)

/-- `pon_gen_delegate_step` up to the call of the delegate, which may be a generator. -/
def delegateStep (entry : UInt32) (consumed : Bool) (rest : List (Activity Gen Await Object))
    (delegate : Option Gen) : Machine Gen Await Object :=
  let sent := (m.generators g).frame.sentValue
  let forward := m.forward exceptions g
  let m := m.takePayload g entry consumed
  match delegate with
  | none => { m with stack := .body g entry (.foreign forward) :: rest }
  | some delegate =>
    let m := { m with stack := .body g entry (.stepping delegate forward) :: rest }
    match forward with
    | .close _ => m.close exceptions delegate
    | .throw exc => m.throw exceptions delegate (some exc)
    | .step =>
      if sendsValue exceptions sent then m.resume exceptions delegate sent none
      else m.resume exceptions delegate (some exceptions.none) none

/-- A body leaves before it has consumed its payload. -/
def abandon (rest : List (Activity Gen Await Object)) (pending : Option (Pending Object)) :
    Machine Gen Await Object :=
  let result := ponGenUnwind exceptions (m.generators g).frame (m.generators g).kind pending
  (m.setFrame g result.1).leave exceptions g rest .unwound result.2

/-- The step of an event, if it is one of who is on top. -/
def step (event : Event Gen Await Object) : Option (Machine Gen Await Object) :=
  match event, m.stack with
  | .call call, _ => if m.codeRuns then some (m.call exceptions call) else none
  | .interrupt pending, .body g _ .called :: rest =>
    some (m.abandon exceptions g rest (some pending))
  | .enter, .body g _ .called :: rest =>
    let frame := (m.generators g).frame
    if frame.resumeState = resumeRunning ∨ frame.resumeState = resumeFinished then
      -- The resume table has no such state.
      some (m.abandon exceptions g rest none)
    else
      some { m.setFrame g { frame with resumeState := resumeRunning } with
        stack := .body g frame.resumeState (.running false) :: rest }
  | .consume, .body g entry (.running false) :: rest =>
    let frame := (m.generators g).frame
    some { m.setFrame g (ponGenConsumePayload exceptions frame).1 with
      stack := .body g entry (.running true) :: rest
      log := m.log ++ [.delivered g entry frame.sentValue frame.thrownExc] }
  | .setSlot index value, .body g _ (.running _) :: _
  | .setSlot index value, .body g _ (.passing _) :: _ =>
    let frame := (m.generators g).frame
    some (m.setFrame g { frame with slots := frame.slots.set index value })
  | .delegate delegate, .body g entry (.running consumed) :: rest =>
    if ∀ g ∈ delegate, (m.generators g).kind ≠ .asyncGenerator then
      some (m.delegateStep exceptions g entry consumed rest delegate)
    else none
  | .suspend state value, .body g _ (.running true) :: rest =>
    if IsSuspendState state then
      some ((m.setFrame g { (m.generators g).frame with resumeState := state }).leave exceptions g rest
        (.yielded value) (.returned (.object value)))
    else none
  | .pass state, .body g _ (.passing value) :: rest =>
    if IsSuspendState state then
      some ((m.setFrame g { (m.generators g).frame with resumeState := state }).leave exceptions g rest
        (.delegated value) (.returned value))
    else none
  | .finish retval, .body g _ (.running true) :: rest =>
    let result := ponGenFinish exceptions (m.generators g).frame retval
    some ((m.setFrame g result.1).leave exceptions g rest .finished result.2)
  | .unwind pending, .body g _ (.running true) :: rest =>
    let result := ponGenUnwind exceptions (m.generators g).frame (m.generators g).kind pending
    some ((m.setFrame g result.1).leave exceptions g rest .unwound result.2)
  | .foreignReturn value, .body g entry (.foreign forward) :: rest =>
    some (m.stepped g entry rest (forward.outcome exceptions (.returned (.object value))))
  | .foreignRaise pending, .body g entry (.foreign _) :: rest =>
    some (m.stepped g entry rest (.raised pending))
  | .foreignMissing, .body g entry (.foreign (.throw exc)) :: rest
  | .foreignMissing, .body g entry (.foreign (.close exc)) :: rest =>
    some (m.stepped g entry rest (raiseObject exceptions exc))
  | _, _ => none

/-- The generator that a call resumes or closes. -/
def target : Call Gen Await Object → Option Gen
  | .send g _ | .throw g _ | .close g => some g
  | .awaitStep a _ _ => some (m.awaitables a).agen
  | .awaitClose _ => none

/-- The body was called and is at its poll, or a signal handler runs there. -/
def polls : Bool :=
  m.stack.any fun activity ↦
    match activity with
    | .body g' _ .called => g' = g
    | _ => false

/-- No signal handler raises at the poll of a body, or resumes or closes the generator there. -/
def PollsQuiet : Event Gen Await Object → Prop
  | .interrupt _ => False
  | .call call => ∀ g ∈ m.target call, m.polls g = false
  | .delegate delegate => ∀ g ∈ delegate, m.polls g = false
  | _ => True

instance (event : Event Gen Await Object) : Decidable (m.PollsQuiet event) := by
  unfold PollsQuiet
  split <;> infer_instance

end Machine

section Moves

variable {Gen Await Object : Type} [DecidableEq Gen] [DecidableEq Await] [DecidableEq Object]
  {exceptions : Exceptions Object} {m m' : Machine Gen Await Object}

/-- How a body leaves: the frame, the ending and what is returned. -/
inductive Leaves (exceptions : Exceptions Object) (generator : PyGenerator Object) :
    Phase Gen Object → GenFrame Object → Ending Object → Outcome Object → Prop
  | suspend {state : UInt32} {value : Object} (hstate : IsSuspendState state) :
      Leaves exceptions generator (.running true) { generator.frame with resumeState := state }
        (.yielded value) (.returned (.object value))
  | pass {state : UInt32} {value : Boxed Object} (hstate : IsSuspendState state) :
      Leaves exceptions generator (.passing value) { generator.frame with resumeState := state }
        (.delegated value) (.returned value)
  | finish (retval : Option Object) :
      Leaves exceptions generator (.running true)
        (ponGenFinish exceptions generator.frame retval).1 .finished
        (ponGenFinish exceptions generator.frame retval).2
  | unwind (pending : Option (Pending Object)) :
      Leaves exceptions generator (.running true)
        (ponGenUnwind exceptions generator.frame generator.kind pending).1 .unwound
        (ponGenUnwind exceptions generator.frame generator.kind pending).2

/-- The moves of the machine. -/
inductive Move (exceptions : Exceptions Object) (m : Machine Gen Await Object) :
    Event Gen Await Object → Machine Gen Await Object → Prop
  | call (call : Call Gen Await Object) (hcode : m.codeRuns = true) :
      Move exceptions m (.call call) (m.call exceptions call)
  | abandon {event : Event Gen Await Object} {g : Gen} {entry : UInt32}
      {rest : List (Activity Gen Await Object)} {pending : Option (Pending Object)}
      (hstack : m.stack = .body g entry .called :: rest)
      (hevent : (∃ pending, event = .interrupt pending) ∨
        (m.generators g).frame.resumeState = resumeRunning ∨
          (m.generators g).frame.resumeState = resumeFinished) :
      Move exceptions m event (m.abandon exceptions g rest pending)
  | enter {g : Gen} {entry : UInt32} {rest : List (Activity Gen Await Object)}
      (hstack : m.stack = .body g entry .called :: rest)
      (hfinished : (m.generators g).frame.resumeState ≠ resumeFinished) :
      Move exceptions m .enter
        { m.setFrame g { (m.generators g).frame with resumeState := resumeRunning } with
          stack := .body g (m.generators g).frame.resumeState (.running false) :: rest }
  | consume {g : Gen} {entry : UInt32} {rest : List (Activity Gen Await Object)}
      (hstack : m.stack = .body g entry (.running false) :: rest) :
      Move exceptions m .consume
        { m.setFrame g (ponGenConsumePayload exceptions (m.generators g).frame).1 with
          stack := .body g entry (.running true) :: rest
          log := m.log ++ [.delivered g entry (m.generators g).frame.sentValue
            (m.generators g).frame.thrownExc] }
  | setSlot {index : ℕ} {value : Option Object} {g : Gen} {entry : UInt32} {phase : Phase Gen Object}
      {rest : List (Activity Gen Await Object)} (hstack : m.stack = .body g entry phase :: rest)
      (hphase : phase ≠ .called) :
      Move exceptions m (.setSlot index value) (m.setFrame g
        { (m.generators g).frame with slots := (m.generators g).frame.slots.set index value })
  | delegate {g : Gen} {entry : UInt32} {consumed : Bool} {rest : List (Activity Gen Await Object)}
      {delegate : Option Gen} (hstack : m.stack = .body g entry (.running consumed) :: rest)
      (hkind : ∀ g ∈ delegate, (m.generators g).kind ≠ .asyncGenerator) :
      Move exceptions m (.delegate delegate) (m.delegateStep exceptions g entry consumed rest delegate)
  | leave {event : Event Gen Await Object} {g : Gen} {entry : UInt32} {phase : Phase Gen Object}
      {rest : List (Activity Gen Await Object)} {frame : GenFrame Object} {ending : Ending Object}
      {outcome : Outcome Object} (hstack : m.stack = .body g entry phase :: rest)
      (hleaves : Leaves exceptions (m.generators g) phase frame ending outcome)
      (hevent : ∀ value, ending = .yielded value → ∃ state, event = .suspend state value) :
      Move exceptions m event ((m.setFrame g frame).leave exceptions g rest ending outcome)
  | foreign {event : Event Gen Await Object} {g : Gen} {entry : UInt32} {forward : Forward Object}
      {rest : List (Activity Gen Await Object)} {outcome : Outcome Object}
      (hstack : m.stack = .body g entry (.foreign forward) :: rest)
      (houtcome : ∀ value, outcome ≠ .returned (.wrapped value)) :
      Move exceptions m event (m.stepped g entry rest outcome)

omit [DecidableEq Object] in
theorem Forward.outcome_object_ne (forward : Forward Object) (object : Object) (value : Boxed Object) :
    forward.outcome exceptions (.returned (.object object)) ≠ .returned (.wrapped value) := by
  cases forward <;> exact nofun

theorem move_of_step {event : Event Gen Await Object} (h : m.step exceptions event = some m') :
    Move exceptions m event m' := by
  unfold Machine.step at h
  split at h
  · split at h
    · rename_i hcode
      exact Option.some.inj h ▸ .call _ hcode
    · cases h
  · exact Option.some.inj h ▸ .abandon ‹_› (.inl ⟨_, rfl⟩)
  · simp only at h
    split at h
    · rename_i hstate
      exact Option.some.inj h ▸ .abandon ‹_› (.inr hstate)
    · rename_i hstate
      exact Option.some.inj h ▸ .enter ‹_› fun hfinished ↦ hstate (.inr hfinished)
  · exact Option.some.inj h ▸ .consume ‹_›
  · rename_i hstack
    exact Option.some.inj h ▸ .setSlot hstack nofun
  · rename_i hstack
    exact Option.some.inj h ▸ .setSlot hstack nofun
  · split at h
    · rename_i hkind
      exact Option.some.inj h ▸ .delegate ‹_› hkind
    · cases h
  · split at h
    · rename_i hstate
      exact Option.some.inj h ▸ .leave ‹_› (.suspend hstate) fun _ hvalue ↦
        ⟨_, by rw [Ending.yielded.inj hvalue]⟩
    · cases h
  · split at h
    · rename_i hstate
      exact Option.some.inj h ▸ .leave ‹_› (.pass hstate) nofun
    · cases h
  · exact Option.some.inj h ▸ .leave ‹_› (.finish _) nofun
  · exact Option.some.inj h ▸ .leave ‹_› (.unwind _) nofun
  · exact Option.some.inj h ▸ .foreign ‹_› fun _ ↦ Forward.outcome_object_ne _ _ _
  · exact Option.some.inj h ▸ .foreign ‹_› nofun
  · exact Option.some.inj h ▸ .foreign ‹_› nofun
  · exact Option.some.inj h ▸ .foreign ‹_› nofun
  · cases h

end Moves

end Pon.Generator
