import Mathlib.Data.List.Basic
import Mathlib.Data.Int.Notation

/-!
# The control-flow intermediate representation

Instructions and terminators of the frontend. The operand type of an instruction
is a parameter: `InstKind Value` is the instruction as it stands in a block, and the same constructor
at a type of runtime objects is the instruction with its operands read. Rewriting the operands is
then the functorial action, and no operand slot can be forgotten by it.

Names stand for their indices in the module's name table.
-/

namespace Pon.Ir

abbrev BlockId := ℕ
abbrev LocalId := ℕ
abbrev CellId := ℕ
abbrev ConstId := ℕ
abbrev FuncId := ℕ
abbrev Value := ℕ
abbrev NameId := String

inductive PyConst where
  | int (value : ℤ)
  | bigInt (digits : String)
  | float (bits : UInt64)
  | complex (real imag : UInt64)
  | str (text : String)
  | bytes (data : List UInt8)
  | bool (value : Bool)
  | none
  | ellipsis
  | notImplemented

inductive BinOp where
  | add | sub | mul | matMul | div | floorDiv | mod | pow | lShift | rShift | and | or | xor

inductive UnOp where
  | neg | pos | invert

inductive CmpOp where
  | eq | ne | lt | le | gt | ge

inductive FStrPart (V : Type) where
  | literal (text : ConstId)
  | interp (value : V) (conversion : UInt8) (formatSpec : Option V)

inductive TStrPart (V : Type) where
  | literal (text : ConstId)
  | interp (value : V) (expression : String) (conversion : UInt8) (formatSpec : Option V)

/-- The operations of the representation over operands of type `V`. -/
inductive InstKind (V : Type) where
  | const (value : PyConst)
  | constRef (index : ConstId)
  | buildTuple (elts : List V)
  | buildList (elts : List V)
  | buildSet (elts : List V)
  | buildMap (pairs : List (V × V))
  | buildSlice (lower upper step : V)
  | buildString (parts : List (FStrPart V))
  | buildTemplate (parts : List (TStrPart V))
  | listAppend (list item : V)
  | setAdd (set item : V)
  | mapInsert (map key val : V)
  | listExtend (list iter : V)
  | listToTuple (list : V)
  | setUpdate (set iter : V)
  | dictMerge (map other : V)
  | dictMergeUnique (map other : V)
  | loadLocal (slot : LocalId)
  | storeLocal (slot : LocalId) (value : V)
  | deleteLocal (slot : LocalId)
  | loadGlobal (name : NameId)
  | storeGlobal (name : NameId) (value : V)
  | deleteGlobal (name : NameId)
  | loadName (name : NameId)
  | storeName (name : NameId) (value : V)
  | deleteName (name : NameId)
  | loadCell (cell : CellId)
  | storeCell (cell : CellId) (value : V)
  | deleteCell (cell : CellId)
  | makeCell (slot : LocalId)
  | loadClosure (cell : CellId)
  | loadBuiltin (name : NameId)
  | binaryOp (op : BinOp) (lhs rhs : V)
  | inplaceOp (op : BinOp) (lhs rhs : V)
  | unaryOp (op : UnOp) (operand : V)
  | compare (op : CmpOp) (lhs rhs : V)
  | contains (item container : V) (negate : Bool)
  | is (lhs rhs : V) (negate : Bool)
  | boolTest (val : V)
  | not (val : V)
  | loadAttr (obj : V) (name : NameId)
  | storeAttr (obj : V) (name : NameId) (val : V)
  | deleteAttr (obj : V) (name : NameId)
  | loadMethod (obj : V) (name : NameId)
  | subscriptGet (obj index : V)
  | subscriptSet (obj index val : V)
  | subscriptDel (obj index : V)
  | call (callee : V) (args : List V)
  | callEx (callee : V) (args : List V) (star : Option V) (kwargs : List (NameId × V))
      (dstar : Option V)
  | callMethod (recvPair : V) (args : List V)
  | getIter (iterable : V)
  | getAIter (iterable : V)
  | forNext (iter : V)
  | unpackSeq (val : V) (n : ℕ)
  | unpackEx (val : V) (before after : ℕ)
  | yield (val : V)
  | yieldFrom (iter : V)
  | await (awaitable : V)
  | genResumePayload
  | genDelegateStep (delegate : V)
  | genLastStopValue
  | raise (exc cause : Option V)
  | reraise
  | pushExcInfo (target : BlockId) (stackDepth kind : ℕ)
  | popExcInfo
  | matchExc (excType : V)
  | checkExcStar (excTypes : V)
  | excStarEnter
  | excStarMatch (excTypes : V)
  | excStarBodyOk
  | excStarBodyRaised
  | excStarFinish
  | getCurrentExc
  | buildExcGroup (excs : List V)
  | matchSequence (subj : V)
  | matchMapping (subj : V)
  | matchClass (subj cls : V) (nargs : ℕ) (kw : List NameId)
  | matchKeys (subj : V) (keys : List V)
  | getLen (subj : V)
  | matchLenGe (subj : V) (n : ℕ) (exact : Bool)
  | importName (name : NameId) (fromlist : List NameId) (level : ℕ)
  | importFrom (module : V) (name : NameId)
  | importStar (module : V)
  | buildClass (body : FuncId) (name : NameId) (bases : List V) (basesSeq : Option V)
      (keywords : List (NameId × V)) (dstar : Option V) (decorators : List V)
      (closure : List CellId)
  | makeFunction (funcIndex : ℕ) (nameInterned : NameId) (arity : ℕ)
  | makeFunctionFull (code : FuncId) (defaults : List V) (kwdefaults : List (NameId × V))
      (closure : List CellId) (annotations : List (NameId × V))
  | functionSetAnnotate (function annotate : V)
  | makeTypeAlias (name : NameId) (thunk : V)
  | makeTypeVar (name : NameId)
  | setupAnnotations
  | loadBuildClass

/-- Block terminators over operands of type `V`. -/
inductive Terminator (V : Type) where
  | ret (value : V)
  | jump (target : BlockId)
  | branch (cond : V) (thenBlk elseBlk : BlockId)
  | condBranch (cond : V) (then_ else_ : BlockId)
  | forLoop (iter : V) (body done : BlockId)
  | suspend (state : ℕ) (val : V) (resume : BlockId)
  | raiseTerm
  | unreachable
deriving DecidableEq

end Pon.Ir
