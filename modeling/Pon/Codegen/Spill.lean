import Mathlib.Data.Finset.Sort
import Pon.Codegen.Region
import Pon.Lib.Liveness

/-!
# Spill windows

Before an instruction that may run user code, the baseline compiler stores the temporaries that are
live across it into the frame, where the collector finds them. A plan is computed for a function: the
handlers that are active at the entries of its blocks, the live values at the entries by a backward
analysis, and from these the set of every window by a walk back through the block.
-/

namespace Pon.Codegen.Spill

open Ir Liveness

/-- The handlers that are active at the entry of a block, innermost last. -/
abbrev EntryStacks := BlockId → Option (List BlockId)

structure EntryWalk where
  entries : EntryStacks
  worklist : List BlockId

def mergeExceptionEntryStack (walk : EntryWalk) (block : BlockId) (stack : List BlockId) :
    Except String EntryWalk :=
  match walk.entries block with
  | some existing =>
    if existing = stack then .ok walk
    else .error "inconsistent exception handler stack at block join"
  | none => .ok ⟨Function.update walk.entries block (some stack), walk.worklist ++ [block]⟩

def exceptionSuccessors (term : Terminator Value) (stack : List BlockId) : List BlockId :=
  match term with
  | .raiseTerm => stack.getLast?.toList
  | term => successors term

/-- The active handlers after an instruction. -/
def stackAfter (kind : InstKind Value) (stack : List BlockId) : List BlockId :=
  match kind with
  | .pushExcInfo target _ _ => stack ++ [target]
  | .popExcInfo => stack.dropLast
  | _ => stack

/-- A pushed handler is entered with the stack that it is pushed on, and itself. -/
def mergePushed (walk : EntryWalk) (kind : InstKind Value) (stack : List BlockId) :
    Except String EntryWalk :=
  match kind with
  | .pushExcInfo target _ _ => mergeExceptionEntryStack walk target (stack ++ [target])
  | _ => .ok walk

def scanInsts : List Inst → List BlockId → EntryWalk → Except String (List BlockId × EntryWalk)
  | [], stack, walk => .ok (stack, walk)
  | inst :: rest, stack, walk => do
    scanInsts rest (stackAfter inst.kind stack) (← mergePushed walk inst.kind stack)

def mergeSuccessors (stack : List BlockId) : List BlockId → EntryWalk → Except String EntryWalk
  | [], walk => .ok walk
  | successor :: rest, walk => do
    mergeSuccessors stack rest (← mergeExceptionEntryStack walk successor stack)

def visitBlock (f : Function) (id : BlockId) (walk : EntryWalk) : Except String EntryWalk :=
  match f.block? id with
  | none => .error "exception stack references missing block"
  | some block => do
    let (stack, walk) ← scanInsts block.insts ((walk.entries id).getD []) walk
    mergeSuccessors stack (exceptionSuccessors block.term stack) walk

/-- The loop over the worklist, for a number of turns. -/
def walkEntries (f : Function) : ℕ → EntryWalk → Option (Except String EntryStacks)
  | 0, _ => none
  | _ + 1, ⟨entries, []⟩ => some (.ok entries)
  | fuel + 1, ⟨entries, id :: rest⟩ =>
    match visitBlock f id ⟨entries, rest⟩ with
    | .error message => some (.error message)
    | .ok walk => walkEntries f fuel walk

def blockExceptionEntryStacks (f : Function) (fuel : ℕ) : Option (Except String EntryStacks) :=
  match f.blocks with
  | [] => some (.ok fun _ ↦ none)
  | entry :: _ =>
    walkEntries f fuel ⟨Function.update (fun _ ↦ none) entry.id (some []), [entry.id]⟩

def pushedTargets (block : Block) : List BlockId :=
  block.insts.filterMap fun inst ↦
    match inst.kind with
    | .pushExcInfo target _ _ => some target
    | _ => none

variable (entries : EntryStacks)

/-- The handlers that are active on entry to a block or pushed in it. -/
def handlerTargets (block : Block) : List BlockId :=
  (((entries block.id).getD [] ++ pushedTargets block).mergeSort fun a b ↦ a ≤ b).dedup

/-- The values that are read before they are defined, and those that are defined. -/
def scanReads (insts : List Inst) : Finset Value × Finset Value :=
  insts.foldl (fun sets inst ↦
    (sets.1 ∪ ((instOperands inst.kind).toFinset \ sets.2), insert inst.result sets.2)) (∅, ∅)

def blockGen (block : Block) : Finset Value :=
  (scanReads block.insts).1 ∪ ((terminatorOperands block.term).toFinset \ (scanReads block.insts).2)

def blockKill (block : Block) : Finset Value := (scanReads block.insts).2

/-- Where control goes at the end of a block, or from within it by an exception. -/
def blockEdges (block : Block) : List BlockId :=
  successors block.term ++ handlerTargets entries block

def flowGraph (f : Function) (entries : EntryStacks) : FlowGraph BlockId Value where
  nodes := f.blocks.map (·.id)
  gen id := (f.block? id).elim ∅ blockGen
  kill id := (f.block? id).elim ∅ blockKill
  succ id := (f.block? id).elim [] (blockEdges entries)

def instSpillPoint : InstKind Value → Bool
  | .const _ | .constRef _ | .buildTuple _ | .buildList _ | .buildSlice .. | .listAppend .. => false
  | .listToTuple _ | .loadLocal _ | .storeLocal .. | .deleteLocal _ | .loadGlobal _ => false
  | .storeGlobal .. | .deleteGlobal _ | .loadCell _ | .storeCell .. | .deleteCell _ => false
  | .makeCell _ | .loadClosure _ | .loadBuiltin _ | .is .. | .makeFunction .. => false
  | .makeFunctionFull .. | .functionSetAnnotate .. | .makeTypeAlias .. | .makeTypeVar _ => false
  | .loadBuildClass | .pushExcInfo .. | .popExcInfo | .genResumePayload => false
  | .genLastStopValue | .getCurrentExc | .excStarEnter | .excStarBodyOk => false
  | .excStarBodyRaised | .excStarFinish | .reraise | .yield _ | .yieldFrom _ => false
  | _ => true

def termSpillPoint : Terminator Value → Bool
  | .branch .. | .condBranch .. | .jump _ => true
  | _ => false

def hasSites (f : Function) : Bool :=
  f.blocks.any fun block ↦
    termSpillPoint block.term || block.insts.any fun inst ↦ instSpillPoint inst.kind

def sorted (live : Finset Value) : List Value := live.sort

/-- The walk back through a block: what is live before the instructions, and the sets of the windows. -/
def walkBack (live : Finset Value) : List Inst → Finset Value × List (Option (List Value))
  | [] => (live, [])
  | inst :: rest =>
    let (after, sets) := walkBack live rest
    let across := after.erase inst.result
    (across ∪ (instOperands inst.kind).toFinset,
      (if instSpillPoint inst.kind then some (sorted across) else none) :: sets)

variable (liveIn : BlockId → Finset Value)

/-- What is live at the end of a block. -/
def liveOut (block : Block) : Finset Value :=
  (blockEdges entries block).toFinset.biUnion liveIn

def termSet (block : Block) : Option (List Value) :=
  if termSpillPoint block.term then some (sorted (liveOut entries liveIn block)) else none

def instSets (block : Block) : List (Option (List Value)) :=
  (walkBack (liveOut entries liveIn block ∪ (terminatorOperands block.term).toFinset) block.insts).2

structure TempSpillPlan where
  instSpills : BlockId → ℕ → Option (List Value)
  termSpills : BlockId → Option (List Value)
  /-- The number of slots of the pool, the size of the largest set. -/
  poolSize : ℕ

def plan (f : Function) (entries : EntryStacks) (liveIn : BlockId → Finset Value) : TempSpillPlan where
  instSpills id index := (f.block? id).bind fun block ↦ (instSets entries liveIn block)[index]?.join
  termSpills id := (f.block? id).bind (termSet entries liveIn)
  poolSize :=
    ((f.blocks.flatMap fun block ↦ termSet entries liveIn block :: instSets entries liveIn block).map
      fun set ↦ (set.getD []).length).foldl max 0

/-- The plan of a function, `none` if no window stores anything. -/
def compute (f : Function) (fuel : ℕ) : Option (Except String (Option TempSpillPlan)) :=
  if !hasSites f then some (.ok none)
  else
    match blockExceptionEntryStacks f fuel with
    | none => none
    | some (.error message) => some (.error message)
    | some (.ok entries) =>
      match (flowGraph f entries).solve fuel fun _ ↦ ∅ with
      | none => none
      | some liveIn =>
        if (plan f entries liveIn).poolSize = 0 then some (.ok none)
        else some (.ok (some (plan f entries liveIn)))

end Pon.Codegen.Spill
