import Pon.Codegen.InferTables
import Pon.Ir.Control
import Pon.Lib.Transition
import Pon.Runtime.Number

/-!
# Soundness of the inferred types

A run of a function on Python objects, with the outcome of everything the pass does not look into left
open. The pass guesses in several places: a parameter without an annotation is taken for a small
integer, a local is typed by the stores that come earlier in the order of the blocks, integer arithmetic
is taken to stay small, and `len` and `range` to be the builtins. In every run in which a load finds an
object of a class that an earlier instruction has stored, also over a loop edge, and the arguments, the
arithmetic and the names are as expected, every value has the type that was inferred for it.
-/

namespace Pon.Codegen.Infer

open Ir Number

/-! ## Objects and types -/

/-- A runtime object, as far as the pass tells objects apart. -/
inductive PyObj where
  | int (value : ℤ)
  | float (bits : UInt64)
  | bool (value : Bool)
  | str (text : String)
  | builtin (name : String)
  | range (start stop step : ℤ)
  | rangeIter (start stop step : ℤ)
  /-- An object of another class. -/
  | instance (cls : ℕ) (id : ℕ)
deriving DecidableEq

def HasType : PyObj → Ty → Prop
  | _, .bottom => False
  | .int _, .int => True
  | .int value, .intI64 => FitsI64 value
  | .float _, .float | .bool _, .bool | .str _, .str => True
  | .instance cls _, .exactClass id => cls = id
  | _, .object => True
  | _, _ => False

def SameClass : PyObj → PyObj → Prop
  | .int _, .int _ | .float _, .float _ | .bool _, .bool _ | .str _, .str _ | .builtin _, .builtin _
  | .range .., .range .. | .rangeIter .., .rangeIter .. => True
  | .instance cls _, .instance cls' _ => cls = cls'
  | _, _ => False

/-- The same object, or one of its class; an integer of 64 bits. -/
def Alike (obj old : PyObj) : Prop :=
  obj = old ∨ SameClass obj old ∧ ∀ value, obj = .int value → FitsI64 value

theorem HasType.alike {obj old : PyObj} {ty : Ty} (h : HasType old ty) (alike : Alike obj old) :
    HasType obj ty := by
  rcases alike with rfl | ⟨same, fits⟩
  · exact h
  · cases obj <;> cases old <;> first | exact same.elim | skip
    all_goals cases ty <;> first | exact h | exact fits _ rfl | exact (same : _ = _).trans h

theorem hasType_object (obj : PyObj) : HasType obj .object := by
  cases obj <;> trivial

theorem not_hasType_bottom (obj : PyObj) : ¬ HasType obj .bottom := by
  cases obj <;> exact id

variable {obj : PyObj}

theorem hasType_int (h : HasType obj .intI64) : HasType obj .int := by
  cases obj <;> trivial

theorem exists_int (h : HasType obj .intI64) : ∃ value, obj = .int value ∧ FitsI64 value := by
  cases obj <;> first | exact ⟨_, rfl, h⟩ | exact h.elim

theorem exists_float (h : HasType obj .float) : ∃ bits, obj = .float bits := by
  cases obj <;> first | exact ⟨_, rfl⟩ | exact h.elim

theorem hasType_join_left {lhs : Ty} (h : HasType obj lhs) (rhs : Ty) :
    HasType obj (lhs.join rhs) := by
  unfold Ty.join
  split_ifs with left right top ints
  · exact (not_hasType_bottom obj (left ▸ h)).elim
  · exact h
  · exact hasType_object obj
  · rcases ints with ⟨rfl, -⟩ | ⟨rfl, -⟩
    · exact hasType_int h
    · exact h
  · exact h
  · exact hasType_object obj

theorem Ty.join_comm (lhs rhs : Ty) : lhs.join rhs = rhs.join lhs := by
  unfold Ty.join
  split_ifs <;> grind

theorem hasType_join_right {rhs : Ty} (h : HasType obj rhs) (lhs : Ty) :
    HasType obj (lhs.join rhs) := by
  rw [Ty.join_comm]
  exact hasType_join_left h lhs

/-- The object has the type, or no type was observed. -/
def Typed (obj : PyObj) (ty : Ty) : Prop := ty ≠ .bottom → HasType obj ty

/-! ## Instructions -/

/-- A run is somewhere in the function, with objects in its locals and values. The instructions that
have stored into a local, with their objects, are a ghost. -/
structure Frame where
  control : State
  locals : LocalId → Option PyObj
  stored : LocalId → List (Value × PyObj)
  env : Value → Option PyObj

/-- The object of a constant. The payload of an integer constant is a 64-bit integer. -/
def ConstResult : PyConst → PyObj → Prop
  | .int value, obj => obj = .int (Int64.ofInt value).toInt
  | .float bits, obj => obj = .float bits
  | .bool value, obj => obj = .bool value
  | .str text, obj => obj = .str text
  | _, _ => True

/-- An operation that gives a float if one operand is a float and the other one a float or an integer. -/
def isFloatOp : BinOp → Bool
  | .add | .sub | .mul | .div | .floorDiv | .mod => true
  | _ => false

/-- What a binary operation may give. Operands that are not numbers run user code. -/
def BinaryResult (op : BinOp) : PyObj → PyObj → PyObj → Prop
  | .int lhs, .int rhs, obj =>
    match binaryInt op lhs rhs with
    | .int value => obj = .int value
    | .bool value => obj = .bool value
    | .quotient _ _ | .power _ _ => ∃ bits, obj = .float bits
    | .notImplemented | .raised _ _ => False
  | .float _, .float _, obj | .float _, .int _, obj | .int _, .float _, obj =>
    isFloatOp op = true → ∃ bits, obj = .float bits
  | _, _, _ => True

def UnaryResult (op : UnOp) : PyObj → PyObj → Prop
  | .int value, obj =>
    match op with
    | .neg => obj = .int (-value)
    | .pos => obj = .int value
    | .invert => obj = .int (-value - 1)
  | .float _, obj => op ≠ .invert → ∃ bits, obj = .float bits
  | _, _ => True

/-- The bounds and the step of a `range` call on integers. -/
def rangeBounds : List PyObj → Option (ℤ × ℤ × ℤ)
  | [.int stop] => some (0, stop, 1)
  | [.int start, .int stop] => some (start, stop, 1)
  | [.int start, .int stop, .int step] => some (start, stop, step)
  | _ => none

/-- What a call may give; only two builtins are looked into. -/
def CallResult (callee : PyObj) (args : List PyObj) (obj : PyObj) : Prop :=
  (callee = .builtin "len" → args.length = 1 → ∃ length : ℤ, 0 ≤ length ∧ length ≤ i64Max ∧
    obj = .int length) ∧
  (callee = .builtin "range" → ∀ bounds, rangeBounds args = some bounds →
    obj = .range bounds.1 bounds.2.1 bounds.2.2)

def IterResult : PyObj → PyObj → Prop
  | .range start stop step, obj => obj = .rangeIter start stop step
  | _, _ => True

/-- An iterator of a range hands out items of the range. -/
def NextResult : PyObj → PyObj → Prop
  | .rangeIter start stop _, obj =>
    ∃ item, obj = .int item ∧ (start ≤ item ∧ item < stop ∨ stop < item ∧ item ≤ start)
  | _, _ => True

/-- The objects that an instruction may produce in a state. -/
def Produces (s : Frame) (obj : PyObj) : InstKind Value → Prop
  | .const constant => ConstResult constant obj
  | .loadLocal slot => s.locals slot = some obj
  | .storeLocal _ value => s.env value = some obj
  | .binaryOp op lhs rhs | .inplaceOp op lhs rhs => ∃ left right,
      s.env lhs = some left ∧ s.env rhs = some right ∧ BinaryResult op left right obj
  | .unaryOp op operand => ∃ value, s.env operand = some value ∧ UnaryResult op value obj
  | .boolTest _ | .not _ | .contains .. | .is .. | .matchSequence _ | .matchMapping _
  | .matchLenGe .. => ∃ value, obj = .bool value
  | .call callee args => ∃ function values, s.env callee = some function ∧
      args.map s.env = values.map some ∧ CallResult function values obj
  | .getIter iterable => ∃ value, s.env iterable = some value ∧ IterResult value obj
  | .forNext iter => ∃ value, s.env iter = some value ∧ NextResult value obj
  | .getLen _ => ∃ length : ℤ, 0 ≤ length ∧ length ≤ i64Max ∧ obj = .int length
  | _ => True

/-- The frame after an instruction has produced an object. -/
def Frame.produce (s : Frame) (inst : Inst) (obj : PyObj) (control : State) : Frame :=
  let s := { s with control, env := Function.update s.env inst.result (some obj) }
  match inst.kind with
  | .storeLocal slot _ =>
    { s with
      locals := Function.update s.locals slot (some obj)
      stored := Function.update s.stored slot ((inst.result, obj) :: s.stored slot) }
  | .deleteLocal slot => { s with locals := Function.update s.locals slot none }
  | _ => s

inductive Act where
  | move
  | produce (inst : Inst) (obj : PyObj)

inductive Step (f : Function) : Frame → Act → Frame → Prop
  | enter {s : Frame} {b : BlockId} {rs : List HandlerSpec} {block : Block} :
      s.control = .entry b rs → f.block? b = some block →
      Step f s .move { s with control := .at b 0 rs }
  | produce {s : Frame} {b : BlockId} {i : ℕ} {rs rs' : List HandlerSpec} {block : Block} {inst : Inst}
      {obj : PyObj} :
      s.control = .at b i rs → f.block? b = some block → block.insts[i]? = some inst →
      inst.kind.records rs = some rs' → Produces s obj inst.kind →
      Step f s (.produce inst obj) (s.produce inst obj (.at b (i + 1) rs'))
  /-- The iterator is at its end; the terminator decides. -/
  | exhausted {s : Frame} {b : BlockId} {i : ℕ} {rs : List HandlerSpec} {block : Block} {inst : Inst}
      {iter : Value} :
      s.control = .at b i rs → f.block? b = some block → block.insts[i]? = some inst →
      inst.kind = .forNext iter →
      Step f s .move { s with control := .at b (i + 1) rs, env := Function.update s.env inst.result none }
  | instRaise {s : Frame} {b : BlockId} {i : ℕ} {rs : List HandlerSpec} {block : Block} {inst : Inst} :
      s.control = .at b i rs → f.block? b = some block → block.insts[i]? = some inst →
      inst.kind.mayRaise rs = true → Step f s .move { s with control := raiseTo rs }
  | term {s : Frame} {b target : BlockId} {rs : List HandlerSpec} {block : Block} :
      s.control = .at b block.insts.length rs → f.block? b = some block →
      target ∈ block.term.successors → Step f s .move { s with control := .entry target rs }
  | termRaise {s : Frame} {b : BlockId} {rs : List HandlerSpec} {block : Block} :
      s.control = .at b block.insts.length rs → f.block? b = some block →
      block.term.mayRaise b = true → Step f s .move { s with control := raiseTo rs }
  | ret {s : Frame} {b : BlockId} {rs : List HandlerSpec} {block : Block} {value : Value} :
      s.control = .at b block.insts.length rs → f.block? b = some block → block.term = .ret value →
      Step f s .move { s with control := .returned }

/-- A call on any arguments. -/
def Initial (s : Frame) : Prop :=
  s.control = .entry 0 [] ∧ s.stored = (fun _ ↦ []) ∧ s.env = fun _ ↦ none

/-! ## Guesses -/

/-- The operands are 64-bit integers, of an operator that the pass takes to stay among them. -/
def OnSmallInts (s : Frame) : InstKind Value → Prop
  | .binaryOp op lhs rhs | .inplaceOp op lhs rhs =>
    (op = .add ∨ op = .sub ∨ op = .mul ∨ op = .floorDiv ∨ op = .mod) ∧
      ∀ operand ∈ [lhs, rhs], ∀ obj, s.env operand = some obj → HasType obj .intI64
  | .unaryOp op operand => op ≠ .invert ∧ ∀ obj, s.env operand = some obj → HasType obj .intI64
  | _ => False

/-- The name is that of the builtin. -/
def Denotes (name : NameId) (obj : PyObj) : Prop :=
  name = "len" ∨ name = "range" → obj = .builtin name

section Run

variable (f : Function) (annotations : Option FunctionAnnotations)

/-- An instruction that comes before the load in the order of the blocks has stored such an object. -/
def StoredBefore (s : Frame) (slot : LocalId) (load : Inst) (obj : PyObj) : Prop :=
  ∃ store ∈ f.insts.takeWhile (·.result ≠ load.result), ∃ old, (store.result, old) ∈ s.stored slot ∧
    Alike obj old

/-- The type that a local starts with: its annotation or, for a parameter without one, a 64-bit integer. -/
def seedType (slot : LocalId) : Ty := (startTables f annotations).localType slot

/-- What the pass takes for granted about an instruction that produces an object. Whatever stored it, a
load finds an object like one that an earlier instruction has stored, or of the type that the local
starts with. Arithmetic on 64-bit integers stays among them, and names denote the builtins. -/
structure Expected (s : Frame) (inst : Inst) (obj : PyObj) : Prop where
  load : ∀ slot, inst.kind = .loadLocal slot → StoredBefore f s slot inst obj ∨
    HasType obj (seedType f annotations slot)
  arithmetic : OnSmallInts s inst.kind → ∀ value, obj = .int value → FitsI64 value
  names : ∀ name, loadsName inst.kind = some name → Denotes name obj

/-- The guard of the runs that go as expected. -/
def AsExpected (s : Frame) : Act → Prop
  | .move => True
  | .produce inst obj => Expected f annotations s inst obj

/-- The states of all runs of a function. -/
def Reached (s : Frame) : Prop := Transition.Reachable Initial (fun _ _ ↦ True) (Step f) s

/-- The states of the runs that go as expected. -/
def ExpectedReached (s : Frame) : Prop :=
  Transition.Reachable Initial (AsExpected f annotations) (Step f) s

/-- Every value has the type that was inferred for its instruction. -/
def WellTyped (s : Frame) : Prop :=
  ∀ typed ∈ (inferFunctionTypes f annotations).insts, ∀ obj, s.env typed.result = some obj →
    Typed obj typed.inferredType

end Run

/-! ## One instruction -/

def IsSmallRange (obj : PyObj) : Prop :=
  ∃ start stop step, obj = .range start stop step ∧ FitsI64 start ∧ FitsI64 stop

def IsSmallIter (obj : PyObj) : Prop :=
  ∃ start stop step, obj = .rangeIter start stop step ∧ FitsI64 start ∧ FitsI64 stop

/-- The tables are right about the objects of a state. -/
structure Describes (t : Tables) (s : Frame) : Prop where
  values : ∀ value obj, s.env value = some obj → HasType obj (t.valueType value)
  names : ∀ value name, t.valueNames value = some name → ∀ obj, s.env value = some obj →
    Denotes name obj
  ranges : ∀ value ∈ t.rangeValues, ∀ obj, s.env value = some obj → IsSmallRange obj
  iters : ∀ value ∈ t.rangeIters, ∀ obj, s.env value = some obj → IsSmallIter obj

section Instruction

variable {t : Tables} {s : Frame} {obj : PyObj}

variable {ty lhs rhs : Ty} {left right : PyObj}

theorem fits_length {length : ℤ} (pos : 0 ≤ length) (le : length ≤ i64Max) : FitsI64 length := by
  refine ⟨?_, le⟩
  unfold i64Min
  omega

variable {op : BinOp}

theorem binaryResult_int {lhs rhs : ℤ}
    (typed : op = .add ∨ op = .sub ∨ op = .mul ∨ op = .floorDiv ∨ op = .mod)
    (result : BinaryResult op (.int lhs) (.int rhs) obj) : ∃ value, obj = .int value := by
  rcases typed with rfl | rfl | rfl | rfl | rfl
  · exact ⟨_, result⟩
  · exact ⟨_, result⟩
  · exact ⟨_, result⟩
  all_goals
    simp only [BinaryResult, binaryInt] at result
    split_ifs at result
    · exact result.elim
    · exact ⟨_, result⟩

theorem binaryResult_float (floats : isFloatOp op = true)
    (numbers : numeric lhs = true ∧ numeric rhs = true ∧ (lhs = .float ∨ rhs = .float))
    (hleft : HasType left lhs) (hright : HasType right rhs) (result : BinaryResult op left right obj) :
    ∃ bits, obj = .float bits := by
  obtain ⟨numLeft, numRight, some⟩ := numbers
  simp only [numeric, Bool.or_eq_true, decide_eq_true_eq] at numLeft numRight
  rcases numLeft with rfl | rfl <;> rcases numRight with rfl | rfl
  · simp at some
  · obtain ⟨_, rfl, -⟩ := exists_int hleft
    obtain ⟨_, rfl⟩ := exists_float hright
    exact result floats
  · obtain ⟨_, rfl⟩ := exists_float hleft
    obtain ⟨_, rfl, -⟩ := exists_int hright
    exact result floats
  · obtain ⟨_, rfl⟩ := exists_float hleft
    obtain ⟨_, rfl⟩ := exists_float hright
    exact result floats

/-- When arithmetic is typed. -/
theorem arithmeticType_cases (op : BinOp) (lhs rhs : Ty) :
    arithmeticType op lhs rhs = .object ∨
    (arithmeticType op lhs rhs = .float ∧ isFloatOp op = true ∧
      numeric lhs = true ∧ numeric rhs = true ∧ (lhs = .float ∨ rhs = .float)) ∨
    (arithmeticType op lhs rhs = .intI64 ∧ lhs = .intI64 ∧ rhs = .intI64 ∧
      (op = .add ∨ op = .sub ∨ op = .mul ∨ op = .floorDiv ∨ op = .mod)) := by
  cases op
  case add | sub | mul | floorDiv | mod =>
    dsimp only [arithmeticType]
    split_ifs with ints floats
    · exact .inr (.inr ⟨rfl, ints.1, ints.2, by simp⟩)
    · exact .inr (.inl ⟨rfl, rfl, floats⟩)
    · exact .inl rfl
  case div =>
    dsimp only [arithmeticType]
    split_ifs with floats
    · exact .inr (.inl ⟨rfl, rfl, floats⟩)
    · exact .inl rfl
  all_goals exact .inl rfl

theorem hasType_arithmetic (hleft : HasType left lhs) (hright : HasType right rhs)
    (result : BinaryResult op left right obj)
    (small : (op = .add ∨ op = .sub ∨ op = .mul ∨ op = .floorDiv ∨ op = .mod) →
      HasType left .intI64 → HasType right .intI64 → ∀ value, obj = .int value → FitsI64 value) :
    HasType obj (arithmeticType op lhs rhs) := by
  rcases arithmeticType_cases op lhs rhs with top | ⟨same, floats, numbers⟩ | ⟨same, rfl, rfl, ints⟩
  · rw [top]
    exact hasType_object obj
  · obtain ⟨bits, rfl⟩ := binaryResult_float floats numbers hleft hright result
    rw [same]
    trivial
  · have fits := small ints hleft hright
    obtain ⟨_, rfl, -⟩ := exists_int hleft
    obtain ⟨_, rfl, -⟩ := exists_int hright
    obtain ⟨value, rfl⟩ := binaryResult_int ints result
    rw [same]
    exact fits value rfl

theorem unaryType_cases (op : UnOp) (ty : Ty) : unaryType op ty = .object ∨
    (unaryType op ty = ty ∧ op ≠ .invert ∧ (ty = .intI64 ∨ ty = .float)) := by
  cases op
  case invert => exact .inl rfl
  all_goals
    dsimp only [unaryType]
    split_ifs with numbers
    · exact .inr ⟨rfl, nofun, numbers⟩
    · exact .inl rfl

theorem unaryResult_int {op : UnOp} {operand : ℤ} (signed : op ≠ .invert)
    (result : UnaryResult op (.int operand) obj) : ∃ value, obj = .int value := by
  cases op
  · exact ⟨_, result⟩
  · exact ⟨_, result⟩
  · exact (signed rfl).elim

theorem hasType_unary {op : UnOp} {operand : PyObj} (typed : HasType operand ty)
    (result : UnaryResult op operand obj)
    (small : op ≠ .invert → HasType operand .intI64 → ∀ value, obj = .int value → FitsI64 value) :
    HasType obj (unaryType op ty) := by
  rcases unaryType_cases op ty with top | ⟨same, signed, rfl | rfl⟩
  · rw [top]
    exact hasType_object obj
  · have fits := small signed typed
    obtain ⟨_, rfl, -⟩ := exists_int typed
    obtain ⟨value, rfl⟩ := unaryResult_int signed result
    rw [same]
    exact fits value rfl
  · obtain ⟨_, rfl⟩ := exists_float typed
    obtain ⟨bits, rfl⟩ := result signed
    rw [same]
    trivial

theorem hasType_const {constant : PyConst} (result : ConstResult constant obj) :
    HasType obj (constType constant) := by
  cases constant
  case int value =>
    obtain rfl := result
    exact toInt_fits _
  case float | str | bool =>
    obtain rfl := result
    trivial
  all_goals exact hasType_object obj

/-- A call that the pass takes for one of `len` or of `range` is one. -/
theorem Describes.call (h : Describes t s) (result : Value) {callee : Value} {args : List Value}
    (produces : Produces s obj (.call callee args)) : HasType obj (t.callType result callee args).1 ∧
      (t.IsRangeCall callee args → IsSmallRange obj) := by
  obtain ⟨function, values, hcallee, hargs, len, range⟩ := produces
  have count : args.length = values.length := by simpa using congrArg List.length hargs
  constructor
  · unfold Tables.callType
    split_ifs with isLen
    · have builtin := h.names callee "len" isLen.1 function hcallee (.inl rfl)
      obtain ⟨length, pos, le, rfl⟩ := len builtin (count ▸ isLen.2)
      exact fits_length pos le
    · exact hasType_object obj
    · exact hasType_object obj
  · rintro ⟨name, pos, le, ints⟩
    have builtin := h.names callee "range" name function hcallee (.inr rfl)
    have small : ∀ value ∈ values, ∃ n, value = .int n ∧ FitsI64 n := by
      intro value mem
      have stored : some value ∈ args.map s.env := hargs ▸ List.mem_map_of_mem mem
      obtain ⟨arg, inside, hvalue⟩ := List.mem_map.mp stored
      have typed := h.values arg value hvalue
      rw [ints arg inside] at typed
      exact exists_int typed
    have zero : FitsI64 0 := by decide
    rw [count] at pos le
    match values, pos, le with
    | [stop], _, _ =>
      obtain ⟨n, rfl, fits⟩ := small stop (by simp)
      exact ⟨_, _, _, range builtin _ rfl, zero, fits⟩
    | [start, stop], _, _ =>
      obtain ⟨m, rfl, fits⟩ := small start (by simp)
      obtain ⟨n, rfl, fits'⟩ := small stop (by simp)
      exact ⟨_, _, _, range builtin _ rfl, fits, fits'⟩
    | [start, stop, step], _, _ =>
      obtain ⟨m, rfl, fits⟩ := small start (by simp)
      obtain ⟨n, rfl, fits'⟩ := small stop (by simp)
      obtain ⟨k, rfl, -⟩ := small step (by simp)
      exact ⟨_, _, _, range builtin _ rfl, fits, fits'⟩

/-- The object that an instruction produces has the type that the pass infers. -/
theorem Describes.hasType (h : Describes t s) {result : Value} {kind : InstKind Value}
    (produces : Produces s obj kind)
    (load : ∀ slot, kind = .loadLocal slot → HasType obj (t.localType slot))
    (small : OnSmallInts s kind → ∀ value, obj = .int value → FitsI64 value) :
    HasType obj (t.inferInst result kind).1 := by
  cases kind with
  | const => exact hasType_const produces
  | loadLocal slot => exact load slot rfl
  | storeLocal slot value => exact h.values value obj produces
  | binaryOp op lhs rhs | inplaceOp op lhs rhs =>
    obtain ⟨left, right, hleft, hright, computed⟩ := produces
    refine hasType_arithmetic (h.values lhs left hleft) (h.values rhs right hright) computed
      fun ints smallLeft smallRight ↦ small ⟨ints, ?_⟩
    simp [hleft, hright, smallLeft, smallRight]
  | unaryOp op operand =>
    obtain ⟨value, hvalue, computed⟩ := produces
    refine hasType_unary (h.values operand value hvalue) computed fun signed smallOperand ↦
      small ⟨signed, ?_⟩
    simp [hvalue, smallOperand]
  | boolTest | not | contains | is | matchSequence | matchMapping | matchLenGe =>
    obtain ⟨value, rfl⟩ := produces
    trivial
  | call callee args => exact (h.call _ produces).1
  | getIter iterable =>
    have top : (t.inferInst result (.getIter iterable)).1 = .object := by
      dsimp only [Tables.inferInst]
      split_ifs <;> rfl
    rw [top]
    exact hasType_object obj
  | forNext iter =>
    obtain ⟨value, hvalue, next⟩ := produces
    dsimp only [Tables.inferInst]
    split_ifs with isRange
    · obtain ⟨start, stop, step, rfl, lower, upper⟩ := h.iters iter isRange value hvalue
      obtain ⟨item, rfl, between⟩ := next
      change FitsI64 item
      unfold FitsI64 at lower upper ⊢
      omega
    · exact hasType_object obj
  | getLen subj =>
    obtain ⟨length, pos, le, rfl⟩ := produces
    exact fits_length pos le
  | _ => exact hasType_object obj

theorem Describes.iter (h : Describes t s) {iterable : Value} (isRange : iterable ∈ t.rangeValues)
    (produces : Produces s obj (.getIter iterable)) : IsSmallIter obj := by
  obtain ⟨value, hvalue, result⟩ := produces
  obtain ⟨start, stop, step, rfl, lower, upper⟩ := h.ranges iterable isRange value hvalue
  exact ⟨start, stop, step, result, lower, upper⟩

end Instruction

/-! ## Runs -/

section Sound

variable {f : Function} {annotations : Option FunctionAnnotations}

/-- The object is what the pass takes the result of an instruction for. -/
structure Agrees (f : Function) (annotations : Option FunctionAnnotations) (inst : Inst) (obj : PyObj) :
    Prop where
  typed : HasType obj (observedType f annotations inst)
  named : ∀ name, loadsName inst.kind = some name → Denotes name obj
  range : ∀ callee args, inst.kind = .call callee args →
    (tablesBefore f annotations inst.result).IsRangeCall callee args → IsSmallRange obj
  iter : ∀ iterable, inst.kind = .getIter iterable →
    iterable ∈ (tablesBefore f annotations inst.result).rangeValues → IsSmallIter obj

/-- What holds in every state of a run that goes as expected. -/
structure Inv (f : Function) (annotations : Option FunctionAnnotations) (s : Frame) : Prop where
  env : ∀ inst ∈ f.insts, ∀ obj, s.env inst.result = some obj → Agrees f annotations inst obj
  stored : ∀ slot writer obj, (writer, obj) ∈ s.stored slot →
    ∃ store ∈ f.insts, store.result = writer ∧ (∃ value, store.kind = .storeLocal slot value) ∧
      HasType obj (observedType f annotations store)
  final : WellTyped f annotations s

variable {inst : Inst} {s : Frame} {obj : PyObj}

theorem Raw.unique (raw : Raw f) {inst' : Inst} (mem : inst ∈ f.insts) (mem' : inst' ∈ f.insts)
    (same : inst.result = inst'.result) : inst = inst' :=
  List.inj_on_of_nodup_map raw.wellFormed.singleDefinition mem mem' same

theorem Inv.describes (h : Inv f annotations s) (raw : Raw f) (value : Value) :
    Describes (tablesBefore f annotations value) s := by
  have sourced : Sourced f annotations _ := sourced_tablesBefore raw value
  refine ⟨fun operand obj found ↦ ?_, fun operand name known obj found ↦ ?_,
    fun operand inside obj found ↦ ?_, fun operand inside obj found ↦ ?_⟩
  · cases known : (tablesBefore f annotations value).values operand with
    | none =>
      rw [Tables.valueType, known]
      exact hasType_object obj
    | some ty =>
      obtain ⟨inst, mem, rfl, rfl⟩ := sourced.values operand ty known
      rw [Tables.valueType, known]
      exact (h.env inst mem obj found).typed
  · obtain ⟨inst, mem, rfl, loads⟩ := sourced.names operand name known
    exact (h.env inst mem obj found).named name loads
  · obtain ⟨inst, mem, rfl, callee, args, isCall, isRange⟩ := sourced.ranges operand inside
    exact (h.env inst mem obj found).range callee args isCall isRange
  · obtain ⟨inst, mem, rfl, iterable, isIter, isRange⟩ := sourced.iters operand inside
    exact (h.env inst mem obj found).iter iterable isIter isRange

variable {slot : LocalId}

theorem upward_hasType (obj : PyObj) : Upward (HasType obj) := fun lhs rhs either ↦
  either.elim (hasType_join_left · rhs) (hasType_join_right · lhs)

theorem Inv.hasType_load (h : Inv f annotations s) (raw : Raw f) {load : Inst}
    (isLoad : load.kind = .loadLocal slot)
    (expected : StoredBefore f s slot load obj ∨ HasType obj (seedType f annotations slot)) :
    HasType obj (observedType f annotations load) := by
  rcases expected with ⟨store, earlier, old, written, alike⟩ | typed
  · have mem : store ∈ f.insts := List.takeWhile_subset _ earlier
    obtain ⟨store', mem', same, ⟨value, isStore⟩, typed⟩ := h.stored slot _ old written
    obtain rfl := raw.unique mem' mem same
    exact observedType_load raw (upward_hasType obj) (hasType_object obj) isLoad isStore earlier
      (typed.alike alike)
  · rw [observedType, isLoad]
    exact inferInsts_localType (upward_hasType obj) _ typed

theorem Inv.agrees (h : Inv f annotations s) (raw : Raw f) (produces : Produces s obj inst.kind)
    (expected : Expected f annotations s inst obj) :
    Agrees f annotations inst obj := by
  have describes := h.describes raw inst.result
  refine ⟨?_, expected.names, fun callee args isCall isRange ↦ ?_, fun iterable isIter isRange ↦ ?_⟩
  · refine describes.hasType produces (fun slot isLoad ↦ ?_) expected.arithmetic
    have loaded : (tablesBefore f annotations inst.result).localType slot =
        observedType f annotations inst := by
      rw [observedType, isLoad]
      rfl
    rw [loaded]
    exact h.hasType_load raw isLoad (expected.load slot isLoad)
  · rw [isCall] at produces
    exact (describes.call inst.result produces).2 isRange
  · rw [isIter] at produces
    exact describes.iter isRange produces

theorem Inv.move (h : Inv f annotations s) (control : State) :
    Inv f annotations { s with control } :=
  ⟨h.env, h.stored, h.final⟩

@[simp]
theorem Frame.produce_env (s : Frame) (inst : Inst) (obj : PyObj) (control : State) :
    (s.produce inst obj control).env = Function.update s.env inst.result (some obj) := by
  unfold Frame.produce
  split <;> rfl

/-- Only a store adds to what has been stored. -/
theorem Frame.produce_stored (s : Frame) (inst : Inst) (obj : PyObj) (control : State) {old : PyObj}
    {writer : Value} (written : (writer, old) ∈ (s.produce inst obj control).stored slot) :
    (∃ value, inst.kind = .storeLocal slot value ∧ old = obj ∧ writer = inst.result) ∨
      (writer, old) ∈ s.stored slot := by
  unfold Frame.produce at written
  split at written
  · rename_i target value isStore
    dsimp only at written
    by_cases same : slot = target
    · subst same
      rw [Function.update_self, List.mem_cons, Prod.mk.injEq] at written
      exact written.imp_left fun ⟨isWriter, isObj⟩ ↦ ⟨value, isStore, isObj, isWriter⟩
    · rw [Function.update_of_ne same] at written
      exact .inr written
  · exact .inr written
  · exact .inr written

/-- A produced object keeps the invariant. -/
theorem Inv.produce (h : Inv f annotations s) (raw : Raw f) (mem : inst ∈ f.insts)
    (produces : Produces s obj inst.kind) (expected : Expected f annotations s inst obj)
    (control : State) :
    Inv f annotations (s.produce inst obj control) := by
  have agrees := h.agrees raw produces expected
  refine ⟨fun other member old found ↦ ?_, fun slot writer old written ↦ ?_,
    fun typed member old found ↦ ?_⟩
  · rw [Frame.produce_env] at found
    by_cases same : other.result = inst.result
    · obtain rfl := raw.unique member mem same
      rw [Function.update_self] at found
      exact Option.some.inj found ▸ agrees
    · rw [Function.update_of_ne same] at found
      exact h.env other member old found
  · rcases s.produce_stored inst obj control written with ⟨value, isStore, rfl, rfl⟩ | kept
    · exact ⟨inst, mem, rfl, ⟨value, isStore⟩, agrees.typed⟩
    · exact h.stored slot writer old kept
  · rw [Frame.produce_env] at found
    by_cases same : typed.result = inst.result
    · rw [same, Function.update_self] at found
      obtain rfl := Option.some.inj found
      obtain ⟨source, sourceMem, typedAs⟩ : ∃ source ∈ f.insts,
          TypedAs _ source (observedType f annotations source) := exists_typedAs raw member
      obtain rfl := raw.unique sourceMem mem (typedAs.result.symm.trans same)
      exact fun _ ↦ typedAs.above (HasType obj) (upward_hasType obj) agrees.typed
    · rw [Function.update_of_ne same] at found
      exact h.final typed member old found

theorem Function.mem_insts_of_block {b : BlockId} {block : Block} {i : ℕ}
    (found : f.block? b = some block) (here : block.insts[i]? = some inst) : inst ∈ f.insts :=
  List.mem_flatMap.mpr ⟨block, List.mem_of_find?_eq_some found, List.mem_of_getElem? here⟩

theorem Inv.step {s' : Frame} {act : Act} (h : Inv f annotations s) (raw : Raw f)
    (expected : AsExpected f annotations s act) (step : Step f s act s') : Inv f annotations s' := by
  cases step with
  | produce _ found here _ produces =>
    exact h.produce raw (Function.mem_insts_of_block found here) produces expected _
  | @exhausted _ _ _ _ inst =>
    have smaller : ∀ value obj, Function.update s.env inst.result none value = some obj →
        s.env value = some obj := by
      intro value obj found
      by_cases same : value = inst.result
      · subst same
        rw [Function.update_self] at found
        cases found
      · rwa [Function.update_of_ne same] at found
    exact ⟨fun other mem obj found ↦ h.env other mem obj (smaller _ _ found), h.stored,
      fun typed mem obj found ↦ h.final typed mem obj (smaller _ _ found)⟩
  | enter | instRaise | term | termRaise | ret => exact h.move _

/-- In every run that goes as the pass expects, every value has the type inferred for it. -/
theorem inferFunctionTypes_sound (raw : Raw f) {s : Frame} (h : ExpectedReached f annotations s) :
    WellTyped f annotations s := by
  have inv : Inv f annotations s := by
    refine Transition.Reachable.invariant (Inv f annotations) (fun s initial ↦ ?_)
      (fun _ _ _ inv expected step ↦ inv.step raw expected step) h
    obtain ⟨-, stored, env⟩ := initial
    refine ⟨fun inst _ obj found ↦ ?_, fun slot writer obj found ↦ ?_, fun typed _ obj found ↦ ?_⟩
    · rw [env] at found
      cases found
    · rw [stored] at found
      cases found
    · rw [env] at found
      cases found
  exact inv.final

end Sound

/-! ## A loop -/

/-- `x = 0; while True: x; x = second`. -/
def reassigning (second : PyConst) : Function where
  arity := 0
  nLocals := 1
  blocks := [
    { id := 0, insts := [{ result := 0, kind := .const (.int 0) }, { result := 1, kind := .storeLocal 0 0 }],
      term := .jump 1 },
    { id := 1, insts := [{ result := 2, kind := .loadLocal 0 }, { result := 3, kind := .const second },
        { result := 4, kind := .storeLocal 0 3 }], term := .jump 1 }]

theorem raw_reassigning (second : PyConst) : Raw (reassigning second) :=
  ⟨⟨of_decide_eq_true rfl, of_decide_eq_true rfl⟩, of_decide_eq_true rfl⟩

section Reached

variable {f : Function} {s : Frame} {b i : ℕ} {block : Block} (h : ExpectedReached f none s)
  (here : s.control = .at b i []) (found : f.block? b = some block)
include h here found

theorem ExpectedReached.inst {inst : Inst} {obj : PyObj} (isInst : block.insts[i]? = some inst)
    (produces : Produces s obj inst.kind) (records : inst.kind.records [] = some [])
    (expected : Expected f none s inst obj) :
    ExpectedReached f none (s.produce inst obj (.at b (i + 1) [])) :=
  .next (a := .produce inst obj) h expected (.produce here found isInst records produces)

theorem ExpectedReached.jump {target : ℕ} {next : Block} (isEnd : i = block.insts.length)
    (isJump : block.term = .jump target) (isNext : f.block? target = some next) :
    ExpectedReached f none { s with control := .at target 0 [] } := by
  subst isEnd
  have entered : ExpectedReached f none { s with control := .entry target [] } :=
    .next (a := .move) h trivial (.term here found (isJump ▸ List.mem_singleton_self _))
  exact .next (a := .move) entered trivial (.enter rfl isNext)

end Reached

theorem expected_load {second : PyConst} {s : Frame} {obj old : PyObj} (stored : (1, old) ∈ s.stored 0)
    (alike : Alike obj old) :
    Expected (reassigning second) none s { result := 2, kind := .loadLocal 0 } obj := by
  refine ⟨fun slot isLoad ↦ .inl ?_, nofun, nofun⟩
  cases isLoad
  exact ⟨{ result := 1, kind := .storeLocal 0 0 }, .tail _ (.head _), old, stored, alike⟩

/-- After one round, the head of the loop finds the second object. -/
theorem head_reassigning {second : PyConst} {obj : PyObj} (isObj : ConstResult second obj) :
    ∃ s, ExpectedReached (reassigning second) none s ∧ s.control = .at 1 0 [] ∧ s.locals 0 = some obj ∧
      s.stored 0 = [(4, obj), (1, .int 0)] := by
  have start : ExpectedReached (reassigning second) none
      ⟨.entry 0 [], fun _ ↦ none, fun _ ↦ [], fun _ ↦ none⟩ := .start ⟨rfl, rfl, rfl⟩
  have entered := Transition.Reachable.next (a := Act.move) start trivial (.enter rfl rfl)
  have one := ExpectedReached.inst entered rfl rfl rfl rfl rfl ⟨nofun, nofun, nofun⟩
  have stored := ExpectedReached.inst one rfl rfl rfl rfl rfl ⟨nofun, nofun, nofun⟩
  have head := ExpectedReached.jump stored rfl rfl rfl rfl rfl
  have loaded := ExpectedReached.inst head rfl rfl rfl rfl rfl (expected_load (.head _) (.inl rfl))
  have two := ExpectedReached.inst loaded rfl rfl rfl isObj rfl ⟨nofun, nofun, nofun⟩
  have again := ExpectedReached.inst two rfl rfl rfl rfl rfl ⟨nofun, nofun, nofun⟩
  exact ⟨_, ExpectedReached.jump again rfl rfl rfl rfl rfl, rfl, rfl, rfl⟩

/-- With an integer in both places, the load has the type inferred from the first one. -/
theorem inferFunctionTypes_sound_loop : ∃ s : Frame, WellTyped (reassigning (.int 1)) none s ∧
    s.env 2 = some (.int 1) ∧ s.stored 0 = [(4, .int 1), (1, .int 0)] := by
  obtain ⟨s, reached, here, found, stored⟩ := @head_reassigning (.int 1) (.int 1) rfl
  have fits : FitsI64 1 := by decide
  have alike : Alike (.int 1) (.int 0) := .inr ⟨trivial, fun value isInt ↦ PyObj.int.inj isInt ▸ fits⟩
  have loaded := ExpectedReached.inst reached here rfl rfl found rfl
    (expected_load (stored ▸ .tail _ (.head _)) alike)
  exact ⟨_, inferFunctionTypes_sound (raw_reassigning _) loaded, rfl, stored⟩

/-- With a string in the second place, the load keeps the type of the first store. -/
theorem inferFunctionTypes_speculates :
    ¬ ∀ (f : Function) (annotations : Option FunctionAnnotations) (s : Frame), Raw f → Reached f s →
      WellTyped f annotations s := by
  intro sound
  obtain ⟨s, reached, here, found, -⟩ := @head_reassigning (.str "s") (.str "s") rfl
  have loaded : Reached _ _ :=
    .next (a := .produce _ _) (reached.mono fun _ _ _ ↦ trivial) trivial (.produce here rfl rfl rfl found)
  obtain ⟨typed, mem, isLoad, isInt⟩ : ∃ typed ∈ (inferFunctionTypes (reassigning (.str "s")) none).insts,
      typed.result = 2 ∧ typed.inferredType = .intI64 :=
    ⟨_, .tail _ (.tail _ (.head _)), rfl, rfl⟩
  have hasType := sound _ none _ (raw_reassigning _) loaded typed mem (.str "s") (by rw [isLoad]; rfl)
  rw [isInt] at hasType
  exact hasType nofun

end Pon.Codegen.Infer
