import Mathlib.Data.Finset.Insert
import Pon.Codegen.Region

/-!
# Local type inference

One pass over the instructions of a function, in the order of its blocks, gives each of them an inferred
type. The type of a local is the join of what has been stored to it so far; parameters start with their
annotations or, without one, with a guess. The results of `range` calls and of loads of names are kept
in side tables. Afterwards the returned values are joined with the annotated return type.
-/

namespace Pon.Codegen

open Ir

/-- The least upper bound of two types. -/
def Ty.join (lhs rhs : Ty) : Ty :=
  if lhs = .bottom then rhs
  else if rhs = .bottom then lhs
  else if lhs = .object ∨ rhs = .object then .object
  else if lhs = .intI64 ∧ rhs = .int ∨ lhs = .int ∧ rhs = .intI64 then .int
  else if lhs = rhs then lhs
  else .object

namespace Infer

inductive AnnotationSource where
  | parameter
  | annAssign
deriving DecidableEq

structure LocalAnnotation where
  slot : LocalId
  ty : Ty
  source : AnnotationSource

structure FunctionAnnotations where
  locals : List LocalAnnotation := []
  returnType : Option Ty := none

/-- What the pass knows at an instruction. -/
structure Tables where
  locals : List Ty
  values : Value → Option Ty
  valueNames : Value → Option NameId
  rangeValues : Finset Value
  rangeIters : Finset Value

def seedLocal (locals : List Ty) ( annotation : LocalAnnotation) : List Ty :=
  locals.modify annotation.slot fun ty ↦
    match annotation.source with
    | .parameter => annotation.ty
    | .annAssign => ty.join annotation.ty

def seedLocals (annotations : Option FunctionAnnotations) (locals : List Ty) : List Ty :=
  match annotations with
  | none => locals
  | some annotations => annotations.locals.foldl seedLocal locals

def seedSpeculativeParameters (arity : ℕ) (locals : List Ty) : List Ty :=
  (locals.take arity).map (fun ty ↦ if ty = .bottom then .intI64 else ty) ++ locals.drop arity

/-- The tables at the start of a function. -/
def startTables (f : Function) (annotations : Option FunctionAnnotations) : Tables where
  locals :=
    seedSpeculativeParameters f.arity (seedLocals annotations (List.replicate f.nLocals .bottom))
  values _ := none
  valueNames _ := none
  rangeValues := ∅
  rangeIters := ∅

variable (t : Tables)

def Tables.localType (slot : LocalId) : Ty := (t.locals[slot]?).getD .object

def Tables.storeLocalType (slot : LocalId) (ty : Ty) : Tables :=
  { t with locals := t.locals.modify slot fun old ↦ old.join ty }

def Tables.valueType (value : Value) : Ty := (t.values value).getD .object

def constType : PyConst → Ty
  | .int _ => .intI64
  | .float _ => .float
  | .bool _ => .bool
  | .str _ => .str
  | _ => .object

def numeric (ty : Ty) : Bool := ty = .intI64 || ty = .float

def arithmeticType (op : BinOp) (lhs rhs : Ty) : Ty :=
  match op with
  | .add | .sub | .mul | .floorDiv | .mod =>
    if lhs = .intI64 ∧ rhs = .intI64 then .intI64
    else if numeric lhs ∧ numeric rhs ∧ (lhs = .float ∨ rhs = .float) then .float
    else .object
  | .div =>
    if numeric lhs ∧ numeric rhs ∧ (lhs = .float ∨ rhs = .float) then .float else .object
  | _ => .object

def unaryType (op : UnOp) (operand : Ty) : Ty :=
  match op with
  | .neg | .pos => if operand = .intI64 ∨ operand = .float then operand else .object
  | .invert => .object

/-- The call is one of the builtin `range` with typed arguments. -/
def Tables.IsRangeCall (callee : Value) (args : List Value) : Prop :=
  t.valueNames callee = some "range" ∧ 1 ≤ args.length ∧ args.length ≤ 3 ∧
    ∀ arg ∈ args, t.valueType arg = .intI64

instance (t : Tables) (callee : Value) (args : List Value) : Decidable (t.IsRangeCall callee args) :=
  inferInstanceAs (Decidable (_ ∧ _ ∧ _ ∧ _))

def Tables.callType (result callee : Value) (args : List Value) : Ty × Tables :=
  if t.valueNames callee = some "len" ∧ args.length = 1 then (.intI64, t)
  else if t.IsRangeCall callee args then
    (.object, { t with rangeValues := insert result t.rangeValues })
  else (.object, t)

/-- The type of an instruction's result, and the tables with what it adds to them. -/
def Tables.inferInst (result : Value) : InstKind Value → Ty × Tables
  | .const constant => (constType constant, t)
  | .loadLocal slot => (t.localType slot, t)
  | .storeLocal slot value =>
    let ty := t.valueType value
    (ty, t.storeLocalType slot ty)
  | .binaryOp op lhs rhs | .inplaceOp op lhs rhs =>
    (arithmeticType op (t.valueType lhs) (t.valueType rhs), t)
  | .unaryOp op operand => (unaryType op (t.valueType operand), t)
  | .compare .. => (.object, t)
  | .boolTest _ | .not _ | .contains .. | .is .. | .matchSequence _ | .matchMapping _
  | .matchLenGe .. => (.bool, t)
  | .loadBuiltin name | .loadGlobal name | .loadName name =>
    (.object, { t with valueNames := Function.update t.valueNames result (some name) })
  | .call callee args => t.callType result callee args
  | .getIter iterable =>
    if iterable ∈ t.rangeValues then
      (.object, { t with rangeIters := insert result t.rangeIters })
    else (.object, t)
  | .forNext iter => (if iter ∈ t.rangeIters then .intI64 else .object, t)
  | .getLen _ => (.intI64, t)
  | _ => (.object, t)

def staticBound : Ty → Ty
  | .intI64 => .int
  | ty => ty

def writeInferredType (inst : Inst) (ty : Ty) : Inst :=
  if ty = .bottom then inst
  else
    { inst with
      inferredType := inst.inferredType.join ty
      staticType := if inst.staticType = .object then staticBound ty else inst.staticType }

/-- One round of the loop over the instructions. -/
def Tables.visitInst (inst : Inst) : Inst × Tables :=
  let (ty, t) := t.inferInst inst.result inst.kind
  let inst := writeInferredType inst ty
  (inst, { t with values := Function.update t.values inst.result (some inst.inferredType) })

def inferInsts : List Inst → Tables → List Inst × Tables
  | [], t => ([], t)
  | inst :: rest, t =>
    let (inst, t) := t.visitInst inst
    let (rest, t) := inferInsts rest t
    (inst :: rest, t)

def inferBlocks : List Block → Tables → List Block × Tables
  | [], t => ([], t)
  | block :: rest, t =>
    let (insts, t) := inferInsts block.insts t
    let (rest, t) := inferBlocks rest t
    ({ block with insts } :: rest, t)

def collectReturnValue (block : Block) : Option Value :=
  match block.term with
  | .ret value => some value
  | _ => none

/-- Write the type of the first instruction that defines the value; `none` if there is none. -/
def writeInsts (value : Value) (ty : Ty) : List Inst → Option (List Inst)
  | [] => none
  | inst :: rest =>
    if inst.result = value then some (writeInferredType inst ty :: rest)
    else (writeInsts value ty rest).map (inst :: ·)

def writeValueType (value : Value) (ty : Ty) : List Block → List Block
  | [] => []
  | block :: rest =>
    match writeInsts value ty block.insts with
    | some insts => { block with insts } :: rest
    | none => block :: writeValueType value ty rest

/-- `infer_function_types`. -/
def inferFunctionTypes (f : Function) (annotations : Option FunctionAnnotations) : Function :=
  let blocks := (inferBlocks f.blocks (startTables f annotations)).1
  match annotations.bind FunctionAnnotations.returnType with
  | none => { f with blocks }
  | some returnType =>
    { f with
      blocks := (f.blocks.filterMap collectReturnValue).foldl
        (fun blocks value ↦ writeValueType value returnType blocks) blocks }

end Infer

end Pon.Codegen
