import Mathlib.Tactic.Common

/-!
# Generators and their frames

The helpers of `abi/gen.rs` on one generator: the driver `pon_gen_resume` before it calls the compiled
body, and the helpers that the body calls on its own frame. A pointer that may be NULL is an
`Option`. What is pending when a helper returns NULL is part of what it returns.
-/

namespace Pon.Generator

inductive GeneratorKind
  | generator | coroutine | asyncGenerator
deriving DecidableEq

def kindNoun : GeneratorKind → String
  | .generator => "generator"
  | .coroutine => "coroutine"
  | .asyncGenerator => "async generator"

def resumeStart : UInt32 := 0

def resumeRunning : UInt32 := 0xFFFFFFFE

def resumeFinished : UInt32 := 0xFFFFFFFF

/-- The states that a suspension stores. -/
def IsSuspendState (state : UInt32) : Prop :=
  state ≠ resumeStart ∧ state ≠ resumeRunning ∧ state ≠ resumeFinished

instance (state : UInt32) : Decidable (IsSuspendState state) :=
  inferInstanceAs (Decidable (_ ∧ _ ∧ _))

/-- The builtin exceptions that the helpers make or look for. -/
inductive ExceptionKind
  | stopIteration | stopAsyncIteration | generatorExit | runtimeError | valueError | typeError
deriving DecidableEq

/-- An object, or the box that the driver puts around what an async generator yields. -/
inductive Boxed (Object : Type)
  | object (object : Object)
  | wrapped (value : Boxed Object)
deriving DecidableEq

/-- What a new exception is made from. -/
inductive Detail (Object : Type)
  | empty
  | value (value : Boxed Object)
  | text (text : String)
  | textFrom (text : String) (cause : Object)

/-- The objects and their exceptions. `make` allocates an instance of a builtin class itself, and
`raise` says which exception `pon_raise` leaves pending for an object. -/
structure Exceptions (Object : Type) where
  none : Object
  isInstance : Object → ExceptionKind → Bool
  isGeneratorExit : Object → Bool
  raise : Object → Object
  make : ExceptionKind → Detail Object → Object
  make_isInstance : ∀ kind detail kind', isInstance (make kind detail) kind' = decide (kind' = kind)
  make_isGeneratorExit : ∀ detail, isGeneratorExit (make .generatorExit detail) = true
  raise_make : ∀ kind detail, raise (make kind detail) = make kind detail

/-- What is pending: an exception, or a message that belongs to no exception object. -/
inductive Pending (Object : Type)
  | exception (exc : Object)
  | diagnostic (text : String)
deriving DecidableEq

/-- What a helper returns. -/
inductive Outcome (Object : Type)
  | returned (value : Boxed Object)
  | raised (pending : Pending Object)
deriving DecidableEq

structure GenFrame (Object : Type) where
  resumeState : UInt32
  sentValue : Option Object
  thrownExc : Option Object
  slots : List (Option Object)

structure PyGenerator (Object : Type) where
  frame : GenFrame Object
  kind : GeneratorKind
  closed : Bool

/-- `pon_gen_frame_alloc` and `pon_make_generator`. The slots hold the arguments of the call. -/
def PyGenerator.new (kind : GeneratorKind) (slots : List (Option Object)) : PyGenerator Object where
  frame := { resumeState := resumeStart, sentValue := none, thrownExc := none, slots }
  kind := kind
  closed := false

/-- `finish_frame`. -/
def GenFrame.finish (frame : GenFrame Object) : GenFrame Object where
  resumeState := resumeFinished
  sentValue := none
  thrownExc := none
  slots := frame.slots.map fun _ ↦ none

/-- The payload is consumed. -/
def GenFrame.clear (frame : GenFrame Object) : GenFrame Object :=
  { frame with sentValue := none, thrownExc := none }

/-- A frame that keeps no object alive. -/
structure GenFrame.Empty (frame : GenFrame Object) : Prop where
  sent : frame.sentValue = none
  thrown : frame.thrownExc = none
  slots : ∀ slot ∈ frame.slots, slot = none

theorem GenFrame.empty_finish (frame : GenFrame Object) : frame.finish.Empty where
  sent := rfl
  thrown := rfl
  slots := by simp [GenFrame.finish]

section Helpers

variable {Object : Type} (exceptions : Exceptions Object)

def Pending.isKind (kind : ExceptionKind) : Pending Object → Bool
  | .exception exc => exceptions.isInstance exc kind
  | .diagnostic _ => false

/-- `pending_exception_matches`, where something is pending at all. -/
def Outcome.isRaised (kind : ExceptionKind) : Outcome Object → Bool
  | .raised pending => pending.isKind exceptions kind
  | .returned _ => false

def raiseError (kind : ExceptionKind) (message : String) : Outcome Object :=
  .raised (.exception (exceptions.make kind (.text message)))

def raiseStopIteration (value : Boxed Object) : Outcome Object :=
  .raised (.exception (exceptions.make .stopIteration (.value value)))

/-- `pon_raise` of an object without a cause. -/
def raiseObject (exc : Object) : Outcome Object :=
  .raised (.exception (exceptions.raise exc))

theorem isRaised_raiseError (kind kind' : ExceptionKind) (message : String) :
    (raiseError exceptions kind message).isRaised exceptions kind' = decide (kind' = kind) :=
  exceptions.make_isInstance _ _ _

theorem isRaised_raiseStopIteration (value : Boxed Object) (kind : ExceptionKind) :
    (raiseStopIteration exceptions value).isRaised exceptions kind = decide (kind = .stopIteration) :=
  exceptions.make_isInstance _ _ _

/-- The guards of `pon_gen_resume`: it answers by itself, or it calls the body with the payload in the
frame. -/
inductive Resumption (Object : Type)
  | answers (outcome : Outcome Object)
  | calls (generator : PyGenerator Object)

/-- The value in a send into a generator that has not started. -/
def sendsValue [DecidableEq Object] : Option Object → Bool
  | some value => value ≠ exceptions.none
  | none => false

/-- `pon_gen_resume` up to the call of the body. -/
def ponGenResume [DecidableEq Object] (generator : PyGenerator Object) (sent thrown : Option Object) :
    Resumption Object :=
  let state := generator.frame.resumeState
  if state = resumeRunning then
    .answers (raiseError exceptions .valueError (kindNoun generator.kind ++ " already executing"))
  else if state = resumeFinished ∨ generator.closed then
    match thrown with
    | some exc => .answers (raiseObject exceptions exc)
    | none =>
      if generator.kind = .coroutine then
        .answers (.raised (.diagnostic "cannot reuse already awaited coroutine"))
      else .answers (raiseStopIteration exceptions (.object exceptions.none))
  else if state = resumeStart ∧ sendsValue exceptions sent ∧ thrown = none then
    .answers (raiseError exceptions .typeError
      ("can't send non-None value to a just-started " ++ kindNoun generator.kind))
  else .calls { generator with frame := { generator.frame with sentValue := sent, thrownExc := thrown } }

/-- `pon_gen_resume` after the body: what an async generator yields itself is put in a box. -/
def ponGenResumed (kind : GeneratorKind) (delegationYield : Bool) : Outcome Object → Outcome Object
  | .returned value =>
    if kind = .asyncGenerator ∧ delegationYield = false then .returned (.wrapped value)
    else .returned value
  | .raised pending => .raised pending

/-- The checks of `pon_gen_close`. -/
inductive Closing (Object : Type)
  | refuses (outcome : Outcome Object)
  | closed (generator : PyGenerator Object)
  | throws (exit : Object)

def ponGenClose (generator : PyGenerator Object) : Closing Object :=
  let state := generator.frame.resumeState
  if state = resumeRunning then
    .refuses (raiseError exceptions .valueError "generator already executing")
  else if generator.closed ∨ state = resumeFinished ∨ state = resumeStart then
    .closed
      { generator with
        closed := true
        frame := if state = resumeFinished then generator.frame else generator.frame.finish }
  else .throws (exceptions.make .generatorExit .empty)

/-- `pon_gen_close` after the exception was thrown: whether the generator is closed, and the answer. -/
def ponGenClosed : Outcome Object → Bool × Outcome Object
  | .returned _ => (false, .raised (.diagnostic "generator ignored GeneratorExit"))
  | .raised pending =>
    if pending.isKind exceptions .generatorExit ∨ pending.isKind exceptions .stopIteration then
      (true, .returned (.object exceptions.none))
    else (false, .raised pending)

/-- `pon_gen_consume_payload`. The thrown exception leaves the frame before it is raised. -/
def ponGenConsumePayload (frame : GenFrame Object) : GenFrame Object × Outcome Object :=
  match frame.thrownExc with
  | some thrown => ({ frame with thrownExc := none }, raiseObject exceptions thrown)
  | none =>
    ({ frame with sentValue := none }, .returned (.object (frame.sentValue.getD exceptions.none)))

/-- `pon_gen_finish`. -/
def ponGenFinish (frame : GenFrame Object) (retval : Option Object) :
    GenFrame Object × Outcome Object :=
  (frame.finish, raiseStopIteration exceptions (.object (retval.getD exceptions.none)))

/-- What `pon_gen_unwind` makes of the pending exception: an iteration's end that escapes is an
error. -/
def ponGenUnwind (frame : GenFrame Object) (kind : GeneratorKind) (pending : Option (Pending Object)) :
    GenFrame Object × Outcome Object :=
  let outcome :=
    match pending with
    | none => .raised (.diagnostic "generator unwound without a pending exception")
    | some (.diagnostic text) => .raised (.diagnostic text)
    | some (.exception original) =>
      if exceptions.isInstance original .stopIteration then
        .raised (.exception (exceptions.make .runtimeError
          (.textFrom (kindNoun kind ++ " raised StopIteration") original)))
      else if kind = .asyncGenerator ∧ exceptions.isInstance original .stopAsyncIteration then
        .raised (.exception (exceptions.make .runtimeError
          (.textFrom (kindNoun kind ++ " raised StopAsyncIteration") original)))
      else .raised (.exception original)
  (frame.finish, outcome)

variable (frame : GenFrame Object) (kind : GeneratorKind) (pending : Option (Pending Object))

/-- No `StopIteration` leaves a body by an exception. -/
theorem ponGenUnwind_isRaised :
    (ponGenUnwind exceptions frame kind pending).2.isRaised exceptions .stopIteration = false := by
  unfold ponGenUnwind
  split
  · rfl
  · rfl
  · rename_i original
    split
    · exact exceptions.make_isInstance _ _ _
    · rename_i hstop
      split
      · exact exceptions.make_isInstance _ _ _
      · exact Bool.eq_false_iff.mpr hstop

theorem ponGenUnwind_raised :
    ∃ pending', (ponGenUnwind exceptions frame kind pending).2 = .raised pending' := by
  unfold ponGenUnwind
  split
  · exact ⟨_, rfl⟩
  · exact ⟨_, rfl⟩
  · split
    · exact ⟨_, rfl⟩
    · split <;> exact ⟨_, rfl⟩

end Helpers

end Pon.Generator
