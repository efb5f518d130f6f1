import Pon.Generator.Frame

/-!
# Awaitables of async generators

What `asend`, `athrow` and `aclose` return. A step resumes the async generator once and classifies what
came back: a box completes the await, any other value is handed on, and an exception ends it.
-/

namespace Pon.Generator

inductive AwaitableMode
  | send | throw | close
deriving DecidableEq

inductive AwaitableState
  | start | iter | closed
deriving DecidableEq

/-- `PyAsyncGenAwaitable`. -/
structure Awaitable (Gen Object : Type) where
  agen : Gen
  payload : Option Object
  mode : AwaitableMode
  state : AwaitableState

/-- How a step resumes the async generator. -/
inductive AgenCall (Object : Type)
  | send (value : Option Object)
  | throw (exc : Option Object)

/-- What a step found, with the value or exception that it goes on with. -/
inductive Verdict (Object : Type)
  | completed (value : Boxed Object)
  | ignoredExit
  | passthrough (value : Boxed Object)
  | closed
  | exhausted
  | raised (pending : Pending Object)
deriving DecidableEq

section Steps

variable {Gen Object : Type} (exceptions : Exceptions Object)

def awaitedTwice (mode : AwaitableMode) : Outcome Object :=
  raiseError exceptions .runtimeError
    (match mode with
    | .send => "cannot reuse already awaited __anext__()/asend()"
    | .throw | .close => "cannot reuse already awaited aclose()/athrow()")

/-- The call in `async_gen_awaitable_step`. -/
def Awaitable.agenCall [DecidableEq Object] (awaitable : Awaitable Gen Object)
    (sent thrown : Option Object) : AgenCall Object :=
  match thrown, awaitable.state, awaitable.mode with
  | some exc, _, _ => .throw (some exc)
  | none, .start, .throw => .throw awaitable.payload
  | none, .start, .close => .throw (some (exceptions.make .generatorExit .empty))
  | none, .start, .send => .send (if sendsValue exceptions sent then sent else awaitable.payload)
  | none, _, _ => .send sent

/-- `classify_agen_step`. -/
def classifyAgenStep (mode : AwaitableMode) : Outcome Object → Verdict Object
  | .returned (.wrapped value) => if mode = .close then .ignoredExit else .completed value
  | .returned (.object object) => .passthrough (.object object)
  | .raised pending =>
    if mode = .close then
      if pending.isKind exceptions .stopIteration ∨ pending.isKind exceptions .stopAsyncIteration ∨
          pending.isKind exceptions .generatorExit then .closed
      else .raised pending
    else if pending.isKind exceptions .stopIteration then .exhausted
    else .raised pending

/-- What the step returns. -/
def Verdict.outcome : Verdict Object → Outcome Object
  | .completed value => raiseStopIteration exceptions value
  | .ignoredExit => raiseError exceptions .runtimeError "async generator ignored GeneratorExit"
  | .passthrough value => .returned value
  | .closed => raiseStopIteration exceptions (.object exceptions.none)
  | .exhausted => .raised (.exception (exceptions.make .stopAsyncIteration .empty))
  | .raised pending => .raised pending

/-- Only a value that is handed on leaves the awaitable as it is. -/
def Verdict.state (state : AwaitableState) : Verdict Object → AwaitableState
  | .passthrough _ => state
  | _ => .closed

/-- An await that is not a close ends in `StopIteration` when a value completes it, and then only. -/
theorem classifyAgenStep_isRaised {mode : AwaitableMode} (hmode : mode ≠ .close)
    (outcome : Outcome Object) :
    ((classifyAgenStep exceptions mode outcome).outcome exceptions).isRaised exceptions
        .stopIteration = true ↔
      ∃ value, outcome = .returned (.wrapped value) := by
  cases outcome with
  | returned value =>
    cases value with
    | object object => simp [classifyAgenStep, Verdict.outcome, Outcome.isRaised]
    | wrapped value =>
      simp [classifyAgenStep, hmode, Verdict.outcome, isRaised_raiseStopIteration]
  | raised pending =>
    by_cases hstop : pending.isKind exceptions .stopIteration = true
    · have hclass : classifyAgenStep exceptions mode (.raised pending) = .exhausted := by
        simp [classifyAgenStep, hmode, hstop]
      have hmade := exceptions.make_isInstance .stopAsyncIteration .empty .stopIteration
      rw [hclass]
      simp [Verdict.outcome, Outcome.isRaised, Pending.isKind, hmade]
    · simp [classifyAgenStep, hmode, hstop, Verdict.outcome, Outcome.isRaised]

end Steps

end Pon.Generator
