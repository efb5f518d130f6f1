import Pon.Ir.Inst

/-!
# The operands of an instruction

All the values that an instruction or a terminator reads, for every constructor.
-/

namespace Pon.Ir

variable {V : Type}

def FStrPart.operands : FStrPart V → List V
  | .literal _ => []
  | .interp value _ formatSpec => value :: formatSpec.toList

def TStrPart.operands : TStrPart V → List V
  | .literal _ => []
  | .interp value _ _ formatSpec => value :: formatSpec.toList

/-- The operands of an instruction, in field order. -/
def InstKind.operands : InstKind V → List V
  | .const _ | .constRef _ => []
  | .buildTuple elts | .buildList elts | .buildSet elts => elts
  | .buildMap pairs => pairs.flatMap fun pair ↦ [pair.1, pair.2]
  | .buildSlice lower upper step => [lower, upper, step]
  | .buildString parts => parts.flatMap FStrPart.operands
  | .buildTemplate parts => parts.flatMap TStrPart.operands
  | .listAppend list item => [list, item]
  | .setAdd set item => [set, item]
  | .mapInsert map key val => [map, key, val]
  | .listExtend list iter => [list, iter]
  | .listToTuple list => [list]
  | .setUpdate set iter => [set, iter]
  | .dictMerge map other => [map, other]
  | .dictMergeUnique map other => [map, other]
  | .loadLocal _ | .deleteLocal _ | .loadGlobal _ | .deleteGlobal _ | .loadName _ => []
  | .deleteName _ | .loadCell _ | .deleteCell _ | .makeCell _ | .loadClosure _ => []
  | .loadBuiltin _ => []
  | .storeLocal _ value | .storeGlobal _ value | .storeName _ value | .storeCell _ value => [value]
  | .binaryOp _ lhs rhs => [lhs, rhs]
  | .inplaceOp _ lhs rhs => [lhs, rhs]
  | .unaryOp _ operand => [operand]
  | .compare _ lhs rhs => [lhs, rhs]
  | .contains item container _ => [item, container]
  | .is lhs rhs _ => [lhs, rhs]
  | .boolTest val | .not val => [val]
  | .loadAttr obj _ | .deleteAttr obj _ | .loadMethod obj _ => [obj]
  | .storeAttr obj _ val => [obj, val]
  | .subscriptGet obj index => [obj, index]
  | .subscriptSet obj index val => [obj, index, val]
  | .subscriptDel obj index => [obj, index]
  | .call callee args => callee :: args
  | .callEx callee args star kwargs dstar =>
    callee :: args ++ star.toList ++ kwargs.map Prod.snd ++ dstar.toList
  | .callMethod recvPair args => recvPair :: args
  | .getIter iterable | .getAIter iterable => [iterable]
  | .forNext iter => [iter]
  | .unpackSeq val _ => [val]
  | .unpackEx val _ _ => [val]
  | .yield val => [val]
  | .yieldFrom iter => [iter]
  | .await awaitable => [awaitable]
  | .genResumePayload | .genLastStopValue => []
  | .genDelegateStep delegate => [delegate]
  | .raise exc cause => exc.toList ++ cause.toList
  | .reraise | .pushExcInfo .. | .popExcInfo | .excStarEnter | .excStarBodyOk => []
  | .excStarBodyRaised | .excStarFinish | .getCurrentExc => []
  | .matchExc excType => [excType]
  | .checkExcStar excTypes | .excStarMatch excTypes => [excTypes]
  | .buildExcGroup excs => excs
  | .matchSequence subj | .matchMapping subj | .getLen subj => [subj]
  | .matchClass subj cls _ _ => [subj, cls]
  | .matchKeys subj keys => subj :: keys
  | .matchLenGe subj _ _ => [subj]
  | .importName .. => []
  | .importFrom module _ => [module]
  | .importStar module => [module]
  | .buildClass _ _ bases basesSeq keywords dstar decorators _ =>
    bases ++ basesSeq.toList ++ keywords.map Prod.snd ++ dstar.toList ++ decorators
  | .makeFunction .. => []
  | .makeFunctionFull _ defaults kwdefaults _ annotations =>
    defaults ++ kwdefaults.map Prod.snd ++ annotations.map Prod.snd
  | .functionSetAnnotate function annotate => [function, annotate]
  | .makeTypeAlias _ thunk => [thunk]
  | .makeTypeVar _ | .setupAnnotations | .loadBuildClass => []

def Terminator.operands : Terminator V → List V
  | .ret value => [value]
  | .branch cond _ _ => [cond]
  | .condBranch cond _ _ => [cond]
  | .forLoop iter _ _ => [iter]
  | .suspend _ val _ => [val]
  | .jump _ | .raiseTerm | .unreachable => []

end Pon.Ir
