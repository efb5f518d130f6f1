import Pon.Ir.Inst
import Mathlib.Data.List.Nodup

/-!
# Typed regions

The typed tier compiles a part of a function with its integers in machine registers. A region is a
set of blocks that carry unboxable type metadata on every instruction and that control enters only
through one block; the largest one is selected, and a plan for it is compiled if every value it keeps
unboxed is a 64-bit integer.
-/

namespace Pon.Codegen

open Ir

/-- The type lattice of the optimizing tier. -/
inductive Ty where
  | bottom | int | intI64 | float | bool | str
  | exactClass (id : ℕ)
  | object
  deriving DecidableEq

def Ty.isUnboxable : Ty → Bool
  | .intI64 | .float => true
  | _ => false

/-- An instruction with its type metadata. -/
structure Inst where
  result : Value
  kind : InstKind Value
  inferredType : Ty := .bottom
  staticType : Ty := .object

structure Block where
  id : BlockId
  insts : List Inst
  term : Terminator Value

structure Function where
  isGenerator : Bool := false
  arity : ℕ := 0
  nLocals : ℕ := 0
  blocks : List Block

def Function.insts (f : Function) : List Inst := f.blocks.flatMap (·.insts)

/-- Block ids are unique and every value has a single definition. -/
structure Function.WellFormed (f : Function) : Prop where
  uniqueBlocks : (f.blocks.map (·.id)).Nodup
  singleDefinition : (f.insts.map (·.result)).Nodup

def fastPathResultType : InstKind Value → Option Ty
  | .compare .. | .boolTest _ | .not _ => some .intI64
  | _ => none

def literalUnboxedType : InstKind Value → Option Ty
  | .const (.int _) => some .intI64
  | .const (.float _) => some .float
  | _ => none

/-- The unboxable type selected for an instruction result. -/
def instUnboxedType (inst : Inst) : Option Ty :=
  match fastPathResultType inst.kind with
  | some ty => some ty
  | none =>
    if inst.inferredType.isUnboxable then some inst.inferredType
    else if inst.staticType.isUnboxable then some inst.staticType
    else literalUnboxedType inst.kind

def isFastPathKind : InstKind Value → Bool
  | .const (.int _) | .const (.float _) | .loadLocal _ | .storeLocal .. | .forNext _ => true
  | .binaryOp op _ _ =>
    match op with
    | .add | .sub | .mul | .floorDiv | .mod => true
    | _ => false
  | .compare .. | .boolTest _ | .not _ => true
  | .unaryOp op _ =>
    match op with
    | .neg | .pos => true
    | .invert => false
  | _ => false

def isTypedInst (inst : Inst) : Bool := isFastPathKind inst.kind && (instUnboxedType inst).isSome

def isRegionTerminator : Terminator Value → Bool
  | .ret _ | .jump _ | .branch .. | .condBranch .. | .forLoop .. | .unreachable => true
  | .suspend .. | .raiseTerm => false

def isTypedBlock (block : Block) : Bool :=
  block.insts.all isTypedInst && isRegionTerminator block.term

/-! ## Operands and edges -/

def fstringOperands (parts : List (FStrPart Value)) : List Value :=
  parts.flatMap fun
    | .literal _ => []
    | .interp value _ formatSpec => value :: formatSpec.toList

def tstringOperands (parts : List (TStrPart Value)) : List Value :=
  parts.flatMap fun
    | .literal _ => []
    | .interp value _ _ formatSpec => value :: formatSpec.toList

/-- The values an instruction reads, in operand order. -/
def instOperands : InstKind Value → List Value
  | .buildTuple elts | .buildList elts | .buildSet elts => elts
  | .buildString parts => fstringOperands parts
  | .buildSlice lower upper step => [lower, upper, step]
  | .buildMap pairs => pairs.flatMap fun pair ↦ [pair.1, pair.2]
  | .buildTemplate parts => tstringOperands parts
  | .listAppend list item | .setAdd list item => [list, item]
  | .dictMerge map other | .dictMergeUnique map other => [map, other]
  | .compare _ lhs rhs | .is lhs rhs _ => [lhs, rhs]
  | .contains item container _ => [item, container]
  | .subscriptGet obj index => [obj, index]
  | .mapInsert map key val => [map, key, val]
  | .listExtend list iter | .setUpdate list iter => [list, iter]
  | .listToTuple list => [list]
  | .storeLocal _ value | .storeGlobal _ value | .storeName _ value | .storeCell _ value => [value]
  | .boolTest value | .not value | .getIter value | .getAIter value | .forNext value => [value]
  | .unpackSeq value _ | .unpackEx value _ _ | .yield value | .yieldFrom value => [value]
  | .await value | .genDelegateStep value | .matchExc value | .checkExcStar value => [value]
  | .excStarMatch value | .matchSequence value | .matchMapping value | .getLen value => [value]
  | .importFrom value _ | .importStar value | .matchLenGe value _ _ => [value]
  | .binaryOp _ lhs rhs | .inplaceOp _ lhs rhs => [lhs, rhs]
  | .unaryOp _ operand => [operand]
  | .storeAttr obj _ val => [obj, val]
  | .loadAttr obj _ | .deleteAttr obj _ | .loadMethod obj _ => [obj]
  | .subscriptSet obj index val => [obj, index, val]
  | .subscriptDel obj index => [obj, index]
  | .call callee args | .callMethod callee args => callee :: args
  | .callEx callee args star kwargs dstar =>
    callee :: args ++ star.toList ++ kwargs.map Prod.snd ++ dstar.toList
  | .raise exc cause => exc.toList ++ cause.toList
  | .buildExcGroup excs => excs
  | .matchKeys subj keys => subj :: keys
  | .matchClass subj cls _ _ => [subj, cls]
  | .buildClass _ _ bases basesSeq keywords dstar decorators _ =>
    bases ++ basesSeq.toList ++ keywords.map Prod.snd ++ dstar.toList ++ decorators
  | .makeFunctionFull _ defaults kwdefaults _ annotations =>
    defaults ++ kwdefaults.map Prod.snd ++ annotations.map Prod.snd
  | _ => []

def terminatorOperands : Terminator Value → List Value
  | .ret value | .branch value _ _ | .condBranch value _ _ | .forLoop value _ _ => [value]
  | .suspend _ value _ => [value]
  | .jump _ | .raiseTerm | .unreachable => []

inductive RegionExitKind where
  | jump | branch | forLoopBody | forLoopDone | suspendResume
  deriving DecidableEq

def successorEdges : Terminator Value → List (BlockId × RegionExitKind)
  | .jump target => [(target, .jump)]
  | .branch _ thenBlk elseBlk => [(thenBlk, .branch), (elseBlk, .branch)]
  | .condBranch _ then_ else_ => [(then_, .branch), (else_, .branch)]
  | .forLoop _ body done => [(body, .forLoopBody), (done, .forLoopDone)]
  | .suspend _ _ resume => [(resume, .suspendResume)]
  | .ret _ | .raiseTerm | .unreachable => []

def successors (term : Terminator Value) : List BlockId := (successorEdges term).map Prod.fst

def Function.block? (f : Function) (id : BlockId) : Option Block :=
  f.blocks.find? fun block ↦ block.id == id

def predecessors (f : Function) (id : BlockId) : List BlockId :=
  (f.blocks.filter fun block ↦ id ∈ successors block.term).map (·.id)

/-! ## Region discovery -/

structure TypedValue where
  value : Value
  ty : Ty
  block : BlockId
  instIndex : ℕ

structure TypedInput where
  value : Value
  ty : Ty

structure RegionExit where
  source : BlockId
  target : BlockId
  kind : RegionExitKind
  deriving DecidableEq

structure TypedRegion where
  entry : BlockId
  blocks : List BlockId
  values : List TypedValue
  liveIns : List TypedInput
  exits : List RegionExit

def isCompatible (f : Function) (id : BlockId) : Bool := (f.block? id).any isTypedBlock

/-- The breadth-first walk over compatible successors; every block is queued at most once. -/
def collectCompatibleReachable (f : Function) : ℕ → List BlockId → List BlockId → List BlockId
  | 0, _, reachable => reachable
  | _ + 1, [], reachable => reachable
  | fuel + 1, id :: queue, reachable =>
    let found := ((f.block? id).elim [] fun block ↦ successors block.term).eraseDups.filter
      fun successor ↦ isCompatible f successor && !reachable.contains successor
    collectCompatibleReachable f fuel (queue ++ found) (reachable ++ found)

/-- One round over the candidate blocks, dropping those that control can enter from outside. -/
def pruneRound (f : Function) (entry : BlockId) (reachable : List BlockId) : List BlockId :=
  reachable.foldl (fun kept id ↦
    if id != entry && (predecessors f id).any (fun pred ↦ !kept.contains pred)
    then kept.filter (· != id) else kept) reachable

def pruneExternalEntries (f : Function) (entry : BlockId) : ℕ → List BlockId → List BlockId
  | 0, reachable => reachable
  | fuel + 1, reachable =>
    let kept := pruneRound f entry reachable
    if kept.length = reachable.length then kept else pruneExternalEntries f entry fuel kept

def collectTypedValues (f : Function) (blocks : List BlockId) : List TypedValue :=
  (f.blocks.filter fun block ↦ blocks.contains block.id).flatMap fun block ↦
    block.insts.zipIdx.filterMap fun (inst, index) ↦
      (instUnboxedType inst).map fun ty ↦ ⟨inst.result, ty, block.id, index⟩

def valueUnboxedType (f : Function) (value : Value) : Option Ty :=
  f.insts.findSome? fun inst ↦ if inst.result = value then instUnboxedType inst else none

def collectLiveIns (f : Function) (blocks : List BlockId) : List TypedInput :=
  let inside := f.blocks.filter fun block ↦ blocks.contains block.id
  let produced := inside.flatMap fun block ↦ block.insts.map (·.result)
  let consumed := inside.flatMap fun block ↦
    block.insts.flatMap (fun inst ↦ instOperands inst.kind) ++ terminatorOperands block.term
  (consumed.filter fun value ↦ !produced.contains value).eraseDups.map fun value ↦
    ⟨value, (valueUnboxedType f value).getD .object⟩

def collectExits (f : Function) (blocks : List BlockId) : List RegionExit :=
  ((f.blocks.filter fun block ↦ blocks.contains block.id).flatMap fun block ↦
    ((successorEdges block.term).filter fun edge ↦ !blocks.contains edge.1).map fun edge ↦
      ⟨block.id, edge.1, edge.2⟩).eraseDups

def buildRegion (f : Function) (entry : BlockId) : Option TypedRegion :=
  let reachable := collectCompatibleReachable f (f.blocks.length + 1) [entry] [entry]
  let kept := pruneExternalEntries f entry (f.blocks.length + 1) reachable
  let blocks := (f.blocks.map (·.id)).filter kept.contains
  let values := collectTypedValues f blocks
  if blocks.isEmpty || values.isEmpty then none
  else some ⟨entry, blocks, values, collectLiveIns f blocks, collectExits f blocks⟩

/-- More blocks, or as many blocks and more values. -/
def isBetterRegion (candidate : TypedRegion) : Option TypedRegion → Bool
  | none => true
  | some best =>
    decide (best.blocks.length < candidate.blocks.length) ||
      (decide (candidate.blocks.length = best.blocks.length) &&
        decide (best.values.length < candidate.values.length))

def findMaximalTypedRegion (f : Function) : Option TypedRegion :=
  f.blocks.foldl (fun best block ↦
    if isTypedBlock block then
      match buildRegion f block.id with
      | some candidate => if isBetterRegion candidate best then some candidate else best
      | none => best
    else best) none

/-! ## Plans -/

/-- The constant bounds of a `range` that a typed loop steps through. -/
structure RangeIterSpec where
  start : Int64
  stop : Int64
  step : Int64

/-- What one pass over the instructions has collected: integer constants, call arguments, iterators
and the iterators over a constant `range`, the latest entry first. -/
structure RangeScan where
  constInts : List (Value × Int64) := []
  callArgs : List (Value × List Value) := []
  getIters : List (Value × Value) := []
  specs : List (Value × RangeIterSpec) := []

def rangeSpecFromArgs (args : List Value) (constInts : List (Value × Int64)) :
    Option RangeIterSpec :=
  match args with
  | [stop] => do
    return ⟨0, ← constInts.lookup stop, 1⟩
  | [start, stop] => do
    return ⟨← constInts.lookup start, ← constInts.lookup stop, 1⟩
  | [start, stop, step] => do
    return ⟨← constInts.lookup start, ← constInts.lookup stop, ← constInts.lookup step⟩
  | _ => none

/-- The bounds of the range behind an iterator. The callee is not looked at: every call with one to
three constant arguments counts as a range. -/
def RangeScan.spec? (scan : RangeScan) (iter : Value) : Option RangeIterSpec := do
  let iterable ← scan.getIters.lookup iter
  let args ← scan.callArgs.lookup iterable
  rangeSpecFromArgs args scan.constInts

def RangeScan.visit (scan : RangeScan) (inst : Inst) : RangeScan :=
  match inst.kind with
  | .const (.int value) =>
    { scan with constInts := (inst.result, Int64.ofInt value) :: scan.constInts }
  | .call _ args => { scan with callArgs := (inst.result, args) :: scan.callArgs }
  | .getIter iterable => { scan with getIters := (inst.result, iterable) :: scan.getIters }
  | .forNext iter =>
    if instUnboxedType inst = some .intI64 then
      match scan.spec? iter with
      | some spec => { scan with specs := (iter, spec) :: scan.specs }
      | none => scan
    else scan
  | _ => scan

def rangeIterSpecs (f : Function) : List (Value × RangeIterSpec) :=
  (f.insts.foldl RangeScan.visit {}).specs

def typedForNextsHaveFastRangeSpecs (f : Function) (region : TypedRegion) : Bool :=
  (f.blocks.filter fun block ↦ region.blocks.contains block.id).all fun block ↦
    block.insts.all fun inst ↦
      match inst.kind with
      | .forNext iter =>
        instUnboxedType inst != some .intI64 || ((rangeIterSpecs f).lookup iter).isSome
      | _ => true

/-- The constant that an instruction of the function defines `value` to be. -/
def constIntValue (f : Function) (value : Value) : Option Int64 :=
  f.insts.findSome? fun inst ↦
    match inst.kind with
    | .const (.int constant) => if inst.result = value then some (Int64.ofInt constant) else none
    | _ => none

structure OptimizingPlan where
  region : TypedRegion
  /-- The boxed live-ins with the types they are expected to have. -/
  entryGuards : List TypedInput
  /-- Unboxed values that reach the end of a region block. -/
  exitsRequiringBoxing : List Value

def valuesReachingRegionExits (f : Function) (region : TypedRegion) : List Value :=
  let produced := region.values.map (·.value) ++ region.liveIns.map (·.value)
  (((f.blocks.filter fun block ↦ region.blocks.contains block.id).flatMap fun block ↦
    terminatorOperands block.term).filter produced.contains).eraseDups

def planRegion (f : Function) (region : TypedRegion) : OptimizingPlan :=
  ⟨region, region.liveIns, valuesReachingRegionExits f region⟩

def planFunction (f : Function) : Option OptimizingPlan :=
  if f.isGenerator then none
  else do
    let region ← findMaximalTypedRegion f
    if typedForNextsHaveFastRangeSpecs f region then some (planRegion f region) else none

def canCompilePlan (plan : OptimizingPlan) : Bool :=
  plan.region.values.all (fun value ↦ value.ty == .intI64) &&
  plan.entryGuards.all (fun guard ↦ guard.ty == .intI64) &&
  (plan.exitsRequiringBoxing.filterMap fun value ↦
    (plan.region.values.find? fun typed ↦ typed.value == value).map (·.ty)).all (· == .intI64)

/-! ## Accepted regions are typed -/

/-- The instructions of the blocks of a region. -/
def regionInsts (f : Function) (region : TypedRegion) : List Inst :=
  (f.blocks.filter fun block ↦ region.blocks.contains block.id).flatMap (·.insts)

variable {f : Function} {plan : OptimizingPlan} {block : Block}

theorem collectCompatibleReachable_compatible {id : BlockId} :
    ∀ {fuel : ℕ} {queue reachable : List BlockId},
      id ∈ collectCompatibleReachable f fuel queue reachable →
      id ∈ reachable ∨ isCompatible f id = true
  | 0, _, _, h => .inl h
  | _ + 1, [], _, h => .inl h
  | fuel + 1, _ :: _, reachable, h => by
    have rest : id ∈ collectCompatibleReachable f fuel _ _ := h
    rcases collectCompatibleReachable_compatible rest with found | compatible
    · rcases List.mem_append.mp found with old | new
      · exact .inl old
      · simp only [List.mem_filter, Bool.and_eq_true] at new
        exact .inr new.2.1
    · exact .inr compatible

theorem pruneRound_subset (f : Function) (entry : BlockId) (reachable : List BlockId) :
    pruneRound f entry reachable ⊆ reachable := by
  have shrink (rest kept : List BlockId) :
      rest.foldl (fun kept id ↦
        if id != entry && (predecessors f id).any (fun pred ↦ !kept.contains pred)
        then kept.filter (· != id) else kept) kept ⊆ kept := by
    induction rest generalizing kept with
    | nil => exact fun _ h ↦ h
    | cons id rest ih =>
      rw [List.foldl_cons]
      intro member h
      have step := ih _ h
      split_ifs at step
      · exact List.mem_of_mem_filter step
      · exact step
  exact shrink reachable reachable

theorem pruneExternalEntries_subset (f : Function) (entry : BlockId) :
    ∀ (fuel : ℕ) (reachable : List BlockId), pruneExternalEntries f entry fuel reachable ⊆ reachable
  | 0, _ => fun _ h ↦ h
  | fuel + 1, reachable => by
    rw [pruneExternalEntries]
    split_ifs
    · exact pruneRound_subset f entry reachable
    · exact List.Subset.trans (pruneExternalEntries_subset f entry fuel _)
        (pruneRound_subset f entry reachable)

variable {region : TypedRegion}

/-- A region is made of its typed entry and blocks reached through typed blocks. -/
theorem buildRegion_compatible {entry id : BlockId}
    (h : buildRegion f entry = some region) (mem : id ∈ region.blocks) :
    id = entry ∨ isCompatible f id = true := by
  simp only [buildRegion] at h
  split_ifs at h
  obtain rfl := Option.some.inj h
  have kept := (List.mem_filter.mp mem).2
  rw [List.contains_iff_mem] at kept
  have reached := pruneExternalEntries_subset f entry _ _ kept
  rcases collectCompatibleReachable_compatible reached with start | compatible
  · exact .inl (List.mem_singleton.mp start)
  · exact .inr compatible

theorem buildRegion_values {entry : BlockId}
    (h : buildRegion f entry = some region) :
    region.values = collectTypedValues f region.blocks := by
  simp only [buildRegion] at h
  split_ifs at h
  obtain rfl := Option.some.inj h
  rfl

theorem findMaximalTypedRegion_built (h : findMaximalTypedRegion f = some region) :
    ∃ block ∈ f.blocks, isTypedBlock block = true ∧ buildRegion f block.id = some region := by
  let Built (best : Option TypedRegion) : Prop := ∀ region, best = some region →
    ∃ block ∈ f.blocks, isTypedBlock block = true ∧ buildRegion f block.id = some region
  suffices invariant : Built (findMaximalTypedRegion f) from invariant region h
  unfold findMaximalTypedRegion
  refine List.foldlRecOn f.blocks _ (motive := Built) ?_ ?_
  · intro region h
    cases h
  · intro best ih block mem
    split_ifs with typed
    · split
      · next candidate built =>
        split_ifs
        · rintro region ⟨⟩
          exact ⟨block, mem, typed, built⟩
        · exact ih
      · exact ih
    · exact ih

theorem planFunction_region (h : planFunction f = some plan) :
    ∃ region, findMaximalTypedRegion f = some region ∧ plan = planRegion f region := by
  unfold planFunction at h
  split_ifs at h
  cases found : findMaximalTypedRegion f with
  | none => simp [found] at h
  | some region =>
    simp only [found, Option.bind_eq_bind, Option.bind_some] at h
    split_ifs at h
    exact ⟨region, rfl, (Option.some.inj h).symm⟩

theorem Function.block?_of_unique (unique : (f.blocks.map (·.id)).Nodup) (mem : block ∈ f.blocks) :
    f.block? block.id = some block := by
  unfold Function.block?
  cases found : f.blocks.find? fun other ↦ other.id == block.id with
  | none => simpa using List.find?_eq_none.mp found block mem
  | some other =>
    have same : other.id = block.id := by simpa using List.find?_some found
    rw [List.inj_on_of_nodup_map unique (List.mem_of_find?_eq_some found) mem same]

theorem Function.WellFormed.block?_of_mem (wf : f.WellFormed) (mem : block ∈ f.blocks) :
    f.block? block.id = some block :=
  Function.block?_of_unique wf.uniqueBlocks mem

theorem isTypedBlock_of_plan (wf : f.WellFormed) (h : planFunction f = some plan)
    (mem : block ∈ f.blocks) (inside : block.id ∈ plan.region.blocks) :
    isTypedBlock block = true := by
  obtain ⟨region, found, rfl⟩ := planFunction_region h
  obtain ⟨entry, entryMem, typed, built⟩ := findMaximalTypedRegion_built found
  rcases buildRegion_compatible built inside with isEntry | compatible
  · rwa [List.inj_on_of_nodup_map wf.uniqueBlocks mem entryMem isEntry]
  · simpa [isCompatible, wf.block?_of_mem mem] using compatible

/-- Every instruction of a region that is compiled has an unboxed integer result. -/
theorem instUnboxedType_of_plan (wf : f.WellFormed) (h : planFunction f = some plan)
    (accepted : canCompilePlan plan = true) {inst : Inst} (mem : inst ∈ regionInsts f plan.region) :
    instUnboxedType inst = some .intI64 := by
  simp only [regionInsts, List.mem_flatMap, List.mem_filter, List.contains_iff_mem] at mem
  obtain ⟨block, ⟨inFunction, inside⟩, instMem⟩ := mem
  have blockTyped := isTypedBlock_of_plan wf h inFunction inside
  simp only [isTypedBlock, Bool.and_eq_true, List.all_eq_true] at blockTyped
  have instTyped := blockTyped.1 inst instMem
  simp only [isTypedInst, Bool.and_eq_true] at instTyped
  obtain ⟨ty, hty⟩ := Option.isSome_iff_exists.mp instTyped.2
  obtain ⟨index, bound, get⟩ := List.mem_iff_getElem.mp instMem
  have collected : ⟨inst.result, ty, block.id, index⟩ ∈ plan.region.values := by
    obtain ⟨region, found, rfl⟩ := planFunction_region h
    obtain ⟨entry, -, -, built⟩ := findMaximalTypedRegion_built found
    rw [planRegion, buildRegion_values built]
    refine List.mem_flatMap.mpr ⟨block, List.mem_filter.mpr ⟨inFunction, ?_⟩, ?_⟩
    · exact List.contains_iff_mem.mpr inside
    · refine List.mem_filterMap.mpr ⟨(inst, index), ?_, by simp [hty]⟩
      exact List.mk_mem_zipIdx_iff_getElem?.mpr (by simp [get, bound])
  simp only [canCompilePlan, Bool.and_eq_true, List.all_eq_true] at accepted
  have isInt : ty = .intI64 := eq_of_beq (accepted.1.1 _ collected)
  rw [hty, isInt]

end Pon.Codegen
