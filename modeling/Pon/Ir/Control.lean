import Pon.Ir.Inst

/-!
# Control and handler records

The control flow of a compiled function, with the outcome of every helper call left open. An
instruction that calls a helper may raise: control then passes to the innermost pushed handler
record, or leaves the function when there is none. The record stays pushed; the handler pops it.

`Raise` and `Reraise` install an exception and go on, and so do the two nullable steps of iteration:
the terminator after them decides. Pushing a record cannot fail, popping one fails only on an empty
handler chain, and loading the current exception gives `None` when there is none.
-/

namespace Pon.Ir

/-- A handler record: where an exception leads, and what the runtime keeps with it. -/
structure HandlerSpec where
  target : BlockId
  stackDepth : ℕ
  kind : ℕ
deriving DecidableEq

/-- A state of control: at the entry of a block, before one of its instructions (or, past the last
one, before the terminator), or outside the function. -/
inductive State where
  | entry (block : BlockId) (records : List HandlerSpec)
  | at (block : BlockId) (index : ℕ) (records : List HandlerSpec)
  | returned
  | raised
deriving DecidableEq

/-- The records after an instruction; `none` when the handler chain underflows. -/
def InstKind.records {V : Type} (kind : InstKind V) (records : List HandlerSpec) :
    Option (List HandlerSpec) :=
  match kind with
  | .pushExcInfo target stackDepth kind => some ({ target, stackDepth, kind } :: records)
  | .popExcInfo => records.tail?
  | _ => some records

/-- Whether the helper of an instruction may raise. -/
def InstKind.mayRaise {V : Type} (kind : InstKind V) (records : List HandlerSpec) : Bool :=
  match kind with
  | .storeLocal .. | .raise .. | .reraise | .pushExcInfo .. | .getCurrentExc | .forNext ..
  | .genDelegateStep .. => false
  | .popExcInfo => records.isEmpty
  | _ => true

/-- The blocks to which a terminator may transfer without an exception. -/
def Terminator.successors {V : Type} : Terminator V → List BlockId
  | .jump target => [target]
  | .branch _ thenBlk elseBlk => [thenBlk, elseBlk]
  | .condBranch _ then_ else_ => [then_, else_]
  | .forLoop _ body done => [body, done]
  | .suspend _ _ resume => [resume]
  | .ret _ | .raiseTerm | .unreachable => []

/-- A backward jump polls for pending signals, a branch tests the truth of an object, and a `for`
loop looks at the end of its iterator. -/
def Terminator.mayRaise {V : Type} (current : BlockId) : Terminator V → Bool
  | .jump target => target ≤ current
  | .branch .. | .condBranch .. | .forLoop .. | .raiseTerm => true
  | .ret _ | .suspend .. | .unreachable => false

/-- Where an exception leads. -/
def raiseTo : List HandlerSpec → State
  | [] => .raised
  | spec :: records => .entry spec.target (spec :: records)

end Pon.Ir
