import Pon.Codegen.Region
import Pon.Runtime.Readers

/-!
# Unboxed integer arithmetic

The fast copy of a typed region keeps 64-bit integers in machine registers. An instruction of it is
lowered to machine arithmetic where its operands are in registers, and is left to the boxed lowering
otherwise. The machine operations wrap around and round towards zero; the boxed ones promote to
arbitrary precision and round down. The two agree exactly where neither difference shows.
-/

namespace Pon.Codegen

open Ir Number Object

/-- What the code emitted for one instruction of the fast copy does. -/
inductive Outcome where
  | value (value : Int64)
  | sideExit
  /-- The machine instruction faults. -/
  | trap
  /-- The boxed lowering is used. -/
  | boxed
  /-- The function is not compiled. -/
  | unsupported (message : String)
  deriving DecidableEq

def sdiv (lhs rhs : Int64) : Outcome :=
  if rhs = 0 ∨ lhs = Int64.minValue ∧ rhs = -1 then .trap else .value (lhs / rhs)

def srem (lhs rhs : Int64) : Outcome :=
  if rhs = 0 then .trap else .value (lhs % rhs)

def guardI64NonZero (value : Int64) (continue_ : Outcome) : Outcome :=
  if value = 0 then .sideExit else continue_

def lowerBinaryI64 (op : BinOp) (lhs rhs : Int64) (rhsNonZero : Bool) : Outcome :=
  match op with
  | .add => .value (lhs + rhs)
  | .sub => .value (lhs - rhs)
  | .mul => .value (lhs * rhs)
  | .floorDiv => if rhsNonZero then sdiv lhs rhs else guardI64NonZero rhs (sdiv lhs rhs)
  | .mod => if rhsNonZero then srem lhs rhs else guardI64NonZero rhs (srem lhs rhs)
  | _ => .unsupported "unsupported typed integer binary op"

/-- The condition code of a comparison, applied. -/
def compareCc (op : CmpOp) (lhs rhs : Int64) : Bool :=
  match op with
  | .eq => lhs == rhs
  | .ne => lhs != rhs
  | .lt => lhs < rhs
  | .le => lhs ≤ rhs
  | .gt => rhs < lhs
  | .ge => rhs ≤ lhs

def boolToI64 (value : Bool) : Int64 := if value then 1 else 0

/-- The integer registers of the fast copy, by the value they hold. -/
abbrev Registers := Value → Option Int64

def Registers.define (regs : Registers) (value : Value) (payload : Int64) : Registers :=
  Function.update regs value (some payload)

/-- Only an immediate passes the guard of a load. -/
def guardAndUnboxI64 (object : Ptr) : Option Int64 :=
  if isSmallInt object then some (untagSmallInt object) else none

/-- One instruction of a region block on the registers. `slot` is the integer a typed load finds in
its slot, `none` where the guard of the load fails, and `counter` the next item of a typed range. -/
def lowerFastInst (f : Function) (regs : Registers) (slot : Option Int64) (counter : Int64)
    (inst : Inst) : Outcome :=
  match inst.kind with
  | .const (.int value) =>
    if instUnboxedType inst = some .intI64 then .value (Int64.ofInt value) else .boxed
  | .forNext iter =>
    if instUnboxedType inst = some .intI64 ∧ ((rangeIterSpecs f).lookup iter).isSome
    then .value counter else .boxed
  | .loadLocal _ =>
    if instUnboxedType inst = some .intI64 then slot.elim .sideExit .value else .boxed
  | .storeLocal _ value =>
    if instUnboxedType inst = some .intI64 then (regs value).elim .boxed .value else .boxed
  | .binaryOp op lhs rhs =>
    if instUnboxedType inst = some .intI64 then
      match regs lhs, regs rhs with
      | some left, some right =>
        lowerBinaryI64 op left right ((constIntValue f rhs).any (· != 0))
      | _, _ => .boxed
    else .boxed
  | .unaryOp op operand =>
    if instUnboxedType inst = some .intI64 then
      match regs operand, op with
      | some value, .neg => .value (-value)
      | some value, .pos => .value value
      | _, _ => .boxed
    else .boxed
  | .compare op lhs rhs =>
    match regs lhs, regs rhs with
    | some left, some right => .value (boolToI64 (compareCc op left right))
    | _, _ => .boxed
  | .boolTest val => (regs val).elim .boxed fun value ↦ .value (boolToI64 (value != 0))
  | .not val => (regs val).elim .boxed fun value ↦ .value (boolToI64 (value == 0))
  | _ => .boxed

/-- The boxed instruction on the Python ints that the registers stand for. -/
def boxedInst (regs : Registers) : InstKind Value → Option PyResult
  | .binaryOp op lhs rhs => do
    return binaryNumeric op (.intI64 (← regs lhs)) (.intI64 (← regs rhs))
  | .unaryOp op operand => do
    return unaryNumeric op (.intI64 (← regs operand))
  | .compare op lhs rhs => do
    return richCompareNumeric op (.intI64 (← regs lhs)) (.intI64 (← regs rhs))
  | .boolTest val => do
    return .bool ((← regs val) != 0)
  | .not val => do
    return .bool ((← regs val) == 0)
  | _ => none

/-! ## The registers of a run -/

def isForNextResult (f : Function) (value : Value) : Prop :=
  ∃ inst ∈ f.insts, inst.result = value ∧ ∃ iter, inst.kind = .forNext iter

/-- An object that a slot can hold. Immediates are made of literals only, and a literal has no sign. -/
def InSlot (object : Ptr) : Prop :=
  isSmallInt object = true → ∃ literal : ℤ, 0 ≤ literal ∧ literal ≤ smallIntMax ∧
    object = tagSmallInt (BitVec.ofInt 64 literal)

/-- The integer variables of the local slots, which are zero before they are set. -/
abbrev IntLocals := LocalId → Int64

/-- A typed load or store sets the variable of its slot. -/
def IntLocals.set (locals : IntLocals) (kind : InstKind Value) (payload : Int64) : IntLocals :=
  match kind with
  | .loadLocal slot | .storeLocal slot _ => Function.update locals slot payload
  | _ => locals

/-- What `load_unboxed_local` finds: the variable of the slot if code for the slot has been emitted
before, and otherwise the object in the slot behind a guard. The order of emission is left open. -/
def Finds (locals : IntLocals) (kind : InstKind Value) (slot : Option Int64) : Prop :=
  (∃ index, kind = .loadLocal index ∧ slot = some (locals index)) ∨
    ∃ object, InSlot object ∧ slot = guardAndUnboxI64 object

/-- The register files that a run of the fast copy can reach. The trusted live-ins enter with any
integer, and the instructions of the region define their results in any order control takes. -/
inductive Reaches (f : Function) (region : TypedRegion) : Registers → IntLocals → Prop where
  | start : Reaches f region (fun _ ↦ none) fun _ ↦ 0
  | liveIn {regs : Registers} {locals : IntLocals} (value : Value) (payload : Int64)
      (previous : Reaches f region regs locals) (trusted : isForNextResult f value) :
      Reaches f region (regs.define value payload) locals
  | step {regs : Registers} {locals : IntLocals} (inst : Inst) (slot : Option Int64)
      (counter result : Int64) (previous : Reaches f region regs locals)
      (mem : inst ∈ regionInsts f region) (found : Finds locals inst.kind slot)
      (run : lowerFastInst f regs slot counter inst = .value result) :
      Reaches f region (regs.define inst.result result) (locals.set inst.kind result)

variable {f : Function} {relation : PyResult → ℤ → Prop} {region : TypedRegion}

theorem mem_insts_of_mem_regionInsts {inst : Inst}
    (h : inst ∈ regionInsts f region) : inst ∈ f.insts := by
  simp only [regionInsts, List.mem_flatMap, List.mem_filter] at h
  obtain ⟨block, ⟨inFunction, -⟩, mem⟩ := h
  exact List.mem_flatMap.mpr ⟨block, inFunction, mem⟩

theorem constIntValue_inst {value : Value} {payload : Int64}
    (h : constIntValue f value = some payload) :
    ∃ inst ∈ f.insts, inst.result = value ∧
      ∃ constant, inst.kind = .const (.int constant) ∧ payload = Int64.ofInt constant := by
  obtain ⟨inst, mem, found⟩ := List.exists_of_findSome?_eq_some h
  refine ⟨inst, mem, ?_⟩
  split at found
  · next constant kind =>
    split_ifs at found with result
    exact ⟨result, constant, kind, by simpa using found.symm⟩
  · simp at found

theorem Reaches.const {regs : Registers} {locals : IntLocals} (wf : f.WellFormed)
    (reaches : Reaches f region regs locals) {value : Value} {payload constant : Int64}
    (register : regs value = some payload) (isConst : constIntValue f value = some constant) :
    payload = constant := by
  obtain ⟨definer, definerMem, definerResult, literal, kind, rfl⟩ := constIntValue_inst isConst
  have unique {inst : Inst} (mem : inst ∈ f.insts) (result : inst.result = value) :
      inst = definer :=
    List.inj_on_of_nodup_map wf.singleDefinition mem definerMem (result.trans definerResult.symm)
  induction reaches with
  | start => simp at register
  | @liveIn regs locals entering _ _ trusted ih =>
    by_cases same : value = entering
    · obtain ⟨inst, mem, result, iter, isForNext⟩ := trusted
      rw [unique mem (result.trans same.symm), kind] at isForNext
      cases isForNext
    · exact ih (by simpa [Registers.define, Function.update_of_ne same] using register)
  | @step regs locals inst slot counter result _ mem _ run ih =>
    by_cases same : value = inst.result
    · have isDefiner := unique (mem_insts_of_mem_regionInsts mem) same.symm
      subst same
      have holds : result = payload := by simpa [Registers.define] using register
      simp only [lowerFastInst, isDefiner, kind] at run
      split_ifs at run
      rw [← holds]
      exact (Outcome.value.inj run).symm
    · exact ih (by simpa [Registers.define, Function.update_of_ne same] using register)

/-! ## Where machine and boxed arithmetic agree -/

/-- The operands of a binary instruction on which machine arithmetic is exact: no overflow, and for
the divisions operands of one sign or an exact quotient. A zero divisor takes the side exit. -/
def ExactBinary (op : BinOp) (left right : ℤ) : Prop :=
  match op with
  | .add => FitsI64 (left + right)
  | .sub => FitsI64 (left - right)
  | .mul => FitsI64 (left * right)
  | .floorDiv =>
    right = 0 ∨ ¬(left = i64Min ∧ right = -1) ∧
      (right ∣ left ∨ 0 < left ∧ 0 < right ∨ left < 0 ∧ right < 0)
  | .mod => right = 0 ∨ right ∣ left ∨ 0 < left ∧ 0 < right ∨ left < 0 ∧ right < 0
  | _ => True

/-- The instructions that machine arithmetic computes exactly on the given registers. -/
def Exact (regs : Registers) : InstKind Value → Prop
  | .binaryOp op lhs rhs => ∀ left right, regs lhs = some left → regs rhs = some right →
      ExactBinary op left.toInt right.toInt
  | .unaryOp .neg operand => ∀ value, regs operand = some value → value.toInt ≠ i64Min
  | _ => True

/-- The instructions whose result is a truth value. -/
def IsTest : InstKind Value → Prop
  | .compare .. | .boolTest _ | .not _ => True
  | _ => False

/-- The number a result stands for, a truth value counting as zero or one. -/
def numberOf : PyResult → Option ℤ
  | .int value => some value
  | .bool value => some (if value then 1 else 0)
  | _ => none

/-- The emitted code takes a side exit or leaves the result to the boxed path, or its register
relates to the boxed result. -/
def Outcome.Agrees (relation : PyResult → ℤ → Prop) (result : PyResult) : Outcome → Prop
  | .value register => relation result register.toInt
  | .trap => False
  | .sideExit | .boxed | .unsupported _ => True

/-- The register holds the number that the boxed path yields. -/
def YieldsNumber (boxed : PyResult) (register : ℤ) : Prop := numberOf boxed = some register

/-- Reboxing the register gives the object that the boxed path yields. -/
def YieldsObject (boxed : PyResult) (register : ℤ) : Prop := boxed = .int register

/-- Reduction modulo the word size is the identity exactly on the 64-bit range. -/
theorem bmod_eq_self_iff (n : ℤ) : n.bmod (2 ^ 64) = n ↔ FitsI64 n := by
  unfold FitsI64 i64Min i64Max
  constructor
  · intro h
    have lower := Int.le_bmod (x := n) (m := 2 ^ 64) (by norm_num)
    have upper := Int.bmod_lt (x := n) (m := 2 ^ 64) (by norm_num)
    omega
  · intro h
    exact Int.bmod_eq_of_le (by omega) (by omega)

/-- Rounding towards zero and rounding down agree on exact quotients and operands of one sign. -/
theorem tdiv_eq_fdiv_iff {a b : ℤ} (hb : b ≠ 0) :
    a.tdiv b = a.fdiv b ↔ b ∣ a ∨ 0 < a ∧ 0 < b ∨ a < 0 ∧ b < 0 := by
  rw [Int.tdiv_eq_fdiv]
  by_cases divides : b ∣ a
  · simp [divides]
  · have nonzero : a ≠ 0 := fun h ↦ divides (h ▸ Int.dvd_zero b)
    rcases lt_or_gt_of_ne hb with neg | pos
    · rw [if_neg divides, if_neg (by omega : ¬(0 ≤ b))]
      by_cases ha : 0 ≤ a
      · simp [divides, ha]; omega
      · simp [divides, ha, Int.sign_eq_neg_one_of_neg neg]; omega
    · have sign := Int.sign_eq_one_of_pos pos
      by_cases ha : 0 ≤ a
      · simp [divides, ha, pos.le]; omega
      · simp [divides, ha, pos.le, sign]; omega

theorem tmod_eq_fmod_iff {a b : ℤ} (hb : b ≠ 0) :
    a.tmod b = a.fmod b ↔ b ∣ a ∨ 0 < a ∧ 0 < b ∨ a < 0 ∧ b < 0 := by
  rw [← tdiv_eq_fdiv_iff hb]
  have truncated := Int.mul_tdiv_add_tmod a b
  have floored := Int.mul_fdiv_add_fmod a b
  constructor
  · intro h
    apply mul_left_cancel₀ hb
    omega
  · intro h
    rw [h] at truncated
    omega

section

variable (onInt : ∀ value register, relation (.int value) register ↔ value = register)
include onInt

/-- The machine quotient is the floored one where it does not fault and rounds the same way. -/
theorem sdiv_agrees_iff (left right : Int64) (nonzero : right.toInt ≠ 0) :
    (sdiv left right).Agrees relation (.int (left.toInt.fdiv right.toInt)) ↔
      ¬(left.toInt = i64Min ∧ right.toInt = -1) ∧ (right.toInt ∣ left.toInt ∨
        0 < left.toInt ∧ 0 < right.toInt ∨ left.toInt < 0 ∧ right.toInt < 0) := by
  have nonzero' : ¬right = 0 := fun h ↦ nonzero ((eq_zero_iff right).mp h)
  simp only [sdiv, eq_minValue_iff, eq_neg_one_iff]
  by_cases corner : left.toInt = i64Min ∧ right.toInt = -1
  · rw [if_pos (.inr corner)]
    exact ⟨False.elim, fun h ↦ absurd corner h.1⟩
  · have quotient : (left / right).toInt = left.toInt.tdiv right.toInt := by
      by_cases unit : right = -1
      · apply Int64.toInt_div_of_ne_left
        intro isMin
        exact corner ⟨(eq_minValue_iff left).mp isMin, (eq_neg_one_iff right).mp unit⟩
      · exact Int64.toInt_div_of_ne_right _ _ unit
    rw [if_neg (by tauto)]
    simp only [Outcome.Agrees, onInt, quotient]
    rw [eq_comm, tdiv_eq_fdiv_iff nonzero]
    exact ⟨fun h ↦ ⟨corner, h⟩, fun h ↦ h.2⟩

theorem srem_agrees_iff (left right : Int64) (nonzero : right.toInt ≠ 0) :
    (srem left right).Agrees relation (.int (left.toInt.fmod right.toInt)) ↔
      (right.toInt ∣ left.toInt ∨
        0 < left.toInt ∧ 0 < right.toInt ∨ left.toInt < 0 ∧ right.toInt < 0) := by
  rw [srem, if_neg (fun h ↦ nonzero ((eq_zero_iff right).mp h))]
  simp only [Outcome.Agrees, onInt, Int64.toInt_mod]
  rw [eq_comm, tmod_eq_fmod_iff nonzero]

/-- The binary operators of the typed tier, with the divisor guard left out only for a divisor that
is not zero. -/
theorem lowerBinaryI64_agrees_iff {op : BinOp}
    {left right : Int64} {rhsNonZero : Bool} (known : rhsNonZero = true → right ≠ 0) :
    (lowerBinaryI64 op left right rhsNonZero).Agrees relation
      (binaryNumeric op (.intI64 left) (.intI64 right)) ↔
    ExactBinary op left.toInt right.toInt := by
  have guarded (machine : Outcome) (exact : ℤ) (condition : Prop)
      (onNonzero : right.toInt ≠ 0 → (machine.Agrees relation (.int exact) ↔ condition)) :
      (if rhsNonZero then machine else guardI64NonZero right machine).Agrees relation
        (if right.toInt = 0 then raiseZeroDivisionError "division by zero" else .int exact) ↔
      right.toInt = 0 ∨ condition := by
    by_cases zero : right.toInt = 0
    · have zero' := (eq_zero_iff right).mpr zero
      have unknown : ¬rhsNonZero = true := fun h ↦ known h zero'
      rw [if_neg unknown, guardI64NonZero, if_pos zero']
      exact ⟨fun _ ↦ .inl zero, fun _ ↦ trivial⟩
    · rw [guardI64NonZero, if_neg (fun h ↦ zero ((eq_zero_iff right).mp h)), ite_self, if_neg zero,
        onNonzero zero]
      exact ⟨.inr, fun h ↦ h.resolve_left zero⟩
  cases op with
  | add | sub | mul =>
    rw [binaryNumeric, binaryI64_eq_binaryInt _ _ (by simp)]
    simp only [lowerBinaryI64, Outcome.Agrees, binaryInt, onInt, Int64.toInt_add, Int64.toInt_sub,
      Int64.toInt_mul, ExactBinary]
    rw [eq_comm, bmod_eq_self_iff]
  | floorDiv =>
    rw [binaryNumeric, binaryI64_eq_binaryInt _ _ (by simp)]
    exact guarded _ _ _ (sdiv_agrees_iff onInt left right)
  | mod =>
    rw [binaryNumeric, binaryI64_eq_binaryInt _ _ (by simp)]
    exact guarded _ _ _ (srem_agrees_iff onInt left right)
  | matMul | div | pow | lShift | rShift | and | or | xor => exact ⟨fun _ ↦ trivial, fun _ ↦ trivial⟩

end

/-- A machine comparison decides as the boxed comparison does. -/
theorem richCompareNumeric_eq (op : CmpOp) (left right : Int64) :
    richCompareNumeric op (.intI64 left) (.intI64 right) = .bool (compareCc op left right) := by
  have beq : (left == right) = decide (left.toInt = right.toInt) := by
    rw [Bool.eq_iff_iff, beq_iff_eq, decide_eq_true_iff, Int64.toInt_inj]
  rcases lt_trichotomy left.toInt right.toInt with less | equal | greater
  · have ordering : compare left.toInt right.toInt = .lt := compare_lt_iff_lt.mpr less
    cases op <;> simp [richCompareNumeric, richCompareOrdering, compareCc, ordering, bne, beq,
      Int64.lt_iff_toInt_lt, Int64.le_iff_toInt_le, less, less.le, less.ne]
  · have ordering : compare left.toInt right.toInt = .eq := compare_eq_iff_eq.mpr equal
    rw [richCompareNumeric, ordering]
    cases op <;> simp [richCompareOrdering, compareCc, bne, beq, Int64.lt_iff_toInt_lt,
      Int64.le_iff_toInt_le, equal]
  · have ordering : compare left.toInt right.toInt = .gt := compare_gt_iff_gt.mpr greater
    cases op <;> simp [richCompareNumeric, richCompareOrdering, compareCc, ordering, bne, beq,
      Int64.lt_iff_toInt_lt, Int64.le_iff_toInt_le, greater, greater.le, greater.ne']

theorem boolToI64_toInt (value : Bool) : (boolToI64 value).toInt = if value then 1 else 0 := by
  cases value <;> rfl

/-- A register with a truth value always holds the number, and never reboxes to the same object. -/
theorem test_agrees_iff (value : Bool) :
    ((Outcome.value (boolToI64 value)).Agrees YieldsNumber (.bool value) ↔ True) ∧
    ((Outcome.value (boolToI64 value)).Agrees YieldsObject (.bool value) ↔ True ∧ ¬True) := by
  simp [Outcome.Agrees, YieldsNumber, YieldsObject, numberOf, boolToI64_toInt]

/-- Every unboxed integer instruction of a compiled region, on the registers of any run: its register
holds the number that the boxed instruction yields exactly where machine arithmetic is exact, and
reboxes to the same object exactly where it is not a test besides. -/
theorem unboxed_agrees_iff {f : Function} (wf : f.WellFormed) {plan : OptimizingPlan}
    (planned : planFunction f = some plan) (accepted : canCompilePlan plan = true)
    {regs : Registers} {locals : IntLocals} (reaches : Reaches f plan.region regs locals) {inst : Inst}
    (mem : inst ∈ regionInsts f plan.region) (slot : Option Int64) (counter : Int64)
    {result : PyResult} (boxed : boxedInst regs inst.kind = some result) :
    ((lowerFastInst f regs slot counter inst).Agrees YieldsNumber result ↔ Exact regs inst.kind) ∧
    ((lowerFastInst f regs slot counter inst).Agrees YieldsObject result ↔
      Exact regs inst.kind ∧ ¬IsTest inst.kind) := by
  have typed := instUnboxedType_of_plan wf planned accepted mem
  have number (value register : ℤ) : YieldsNumber (.int value) register ↔ value = register := by
    simp [YieldsNumber, numberOf]
  have object (value register : ℤ) : YieldsObject (.int value) register ↔ value = register := by
    simp [YieldsObject]
  revert boxed
  cases kind : inst.kind
  case binaryOp op lhs rhs =>
    cases left : regs lhs <;> cases right : regs rhs <;>
      simp only [boxedInst, left, right, Option.bind_eq_bind, Option.bind_none, Option.bind_some,
        reduceCtorEq, false_implies, Option.pure_def, Option.some.injEq]
    rintro rfl
    next left' right' =>
    have known : (constIntValue f rhs).any (· != 0) = true → right' ≠ 0 := by
      intro h
      cases isConst : constIntValue f rhs with
      | none => simp [isConst] at h
      | some constant =>
        rw [reaches.const wf right isConst]
        simpa [isConst] using h
    have exact : Exact regs (.binaryOp op lhs rhs) ↔ ExactBinary op left'.toInt right'.toInt := by
      simp [Exact, left, right]
    rw [exact]
    simp only [lowerFastInst, kind, typed, left, right, if_true, IsTest, not_false_eq_true, and_true]
    exact ⟨lowerBinaryI64_agrees_iff number known, lowerBinaryI64_agrees_iff object known⟩
  case unaryOp op operand =>
    cases register : regs operand <;>
      simp only [boxedInst, register, Option.bind_eq_bind, Option.bind_none, Option.bind_some,
        reduceCtorEq, false_implies, Option.pure_def, Option.some.injEq]
    rintro rfl
    next value =>
    cases op with
    | neg =>
      have exact : Exact regs (.unaryOp .neg operand) ↔ (-value.toInt).bmod (2 ^ 64) = -value.toInt := by
        have fits := toInt_fits value
        rw [bmod_eq_self_iff]
        simp only [Exact, register, Option.some.injEq, forall_eq', FitsI64, i64Min, i64Max] at fits ⊢
        omega
      rw [exact]
      simp [lowerFastInst, kind, typed, register, Outcome.Agrees, unaryNumeric_neg, number, object,
        IsTest, eq_comm]
    | pos =>
      simp [lowerFastInst, kind, typed, register, Outcome.Agrees, unaryNumeric, fromI64, number,
        object, Exact, IsTest]
    | invert => simp [lowerFastInst, kind, typed, register, Outcome.Agrees, Exact, IsTest]
  case compare op lhs rhs =>
    cases left : regs lhs <;> cases right : regs rhs <;>
      simp only [boxedInst, left, right, Option.bind_eq_bind, Option.bind_none, Option.bind_some,
        reduceCtorEq, false_implies, Option.pure_def, Option.some.injEq]
    rintro rfl
    simp only [lowerFastInst, kind, left, right, richCompareNumeric_eq, Exact, IsTest]
    exact test_agrees_iff _
  case boolTest val | not val =>
    cases register : regs val <;>
      simp only [boxedInst, register, Option.bind_eq_bind, Option.bind_none, Option.bind_some,
        reduceCtorEq, false_implies, Option.pure_def, Option.some.injEq]
    rintro rfl
    simp only [lowerFastInst, kind, register, Option.elim_some, Exact, IsTest]
    exact test_agrees_iff _
  all_goals simp [boxedInst]

/-! ## A negative dividend -/

def differenceInst : Inst := { result := 2, kind := .binaryOp .sub 0 1, inferredType := .intI64 }

def halfInst : Inst := { result := 4, kind := .binaryOp .floorDiv 2 3, inferredType := .intI64 }

/-- The body of `def half(a, b): return (a - b) // 2`, with both parameters speculated as integers. -/
def halfFunction : Function where
  arity := 2
  nLocals := 2
  blocks := [{
    id := 0
    insts := [
      { result := 0, kind := .loadLocal 0, inferredType := .intI64 },
      { result := 1, kind := .loadLocal 1, inferredType := .intI64 },
      differenceInst,
      { result := 3, kind := .const (.int 2), inferredType := .intI64 },
      halfInst]
    term := .ret 4 }]

def halfPlan : OptimizingPlan :=
  planRegion halfFunction ⟨0, [0], [⟨0, .intI64, 0, 0⟩, ⟨1, .intI64, 0, 1⟩, ⟨2, .intI64, 0, 2⟩,
    ⟨3, .intI64, 0, 3⟩, ⟨4, .intI64, 0, 4⟩], [], []⟩

theorem halfFunction_wellFormed : halfFunction.WellFormed := ⟨by decide, by decide⟩

theorem halfFunction_planned : planFunction halfFunction = some halfPlan := rfl

/-- The registers of `half` before its division. -/
def halfRegisters (left right : Int64) : Registers :=
  Registers.define (Registers.define (Registers.define (Registers.define (fun _ ↦ none) 0 left) 1 right)
    2 (left - right)) 3 2

theorem guardAndUnboxI64_literal {literal : ℤ} (low : 0 ≤ literal) (high : literal ≤ smallIntMax) :
    guardAndUnboxI64 (tagSmallInt (BitVec.ofInt 64 literal)) = some (Int64.ofInt literal) := by
  have word : (BitVec.ofInt 64 literal).toInt = literal := by
    unfold smallIntMax at high
    rw [BitVec.toInt_ofInt]
    exact Int.bmod_eq_of_le (by omega) (by omega)
  have small : SmallInt (BitVec.ofInt 64 literal).toInt := by
    rw [word]
    exact ⟨(by decide : smallIntMin ≤ 0).trans low, high⟩
  rw [guardAndUnboxI64, if_pos (isSmallInt_tagSmallInt _), Option.some.injEq, ← Int64.toInt_inj]
  exact untagSmallInt_tagSmallInt small

/-- Calling `half` with two literals. -/
theorem halfRegisters_reached (left right : ℤ) (hleft : 0 ≤ left ∧ left ≤ smallIntMax)
    (hright : 0 ≤ right ∧ right ≤ smallIntMax) : ∃ locals, Reaches halfFunction halfPlan.region
      (halfRegisters (Int64.ofInt left) (Int64.ofInt right)) locals := by
  have guarded {kind : InstKind Value} {locals : IntLocals} {literal : ℤ}
      (h : 0 ≤ literal ∧ literal ≤ smallIntMax) : Finds locals kind (some (Int64.ofInt literal)) :=
    .inr ⟨_, fun _ ↦ ⟨literal, h.1, h.2, rfl⟩, (guardAndUnboxI64_literal h.1 h.2).symm⟩
  have mem {inst : Inst} (h : inst ∈ halfFunction.insts) :
      inst ∈ regionInsts halfFunction halfPlan.region := h
  have first := Reaches.start.step { result := 0, kind := .loadLocal 0, inferredType := .intI64 } _ 0 _
    (mem (by simp [halfFunction, Function.insts])) (guarded hleft) rfl
  have second := first.step { result := 1, kind := .loadLocal 1, inferredType := .intI64 } _ 0 _
    (mem (by simp [halfFunction, Function.insts])) (guarded hright) rfl
  have third := second.step differenceInst _ 0 _ (mem (by simp [halfFunction, Function.insts]))
    (guarded hright) rfl
  exact ⟨_, third.step { result := 3, kind := .const (.int 2), inferredType := .intI64 } _ 0 _
    (mem (by simp [halfFunction, Function.insts])) (guarded hright) rfl⟩

/-- `(0 - 7) // 2` is `-4`, and its unboxed code yields `-3`. -/
theorem unboxed_floorDiv_rounds_to_zero :
    ¬∀ (f : Function) (plan : OptimizingPlan), f.WellFormed → planFunction f = some plan →
      canCompilePlan plan = true → ∀ regs locals, Reaches f plan.region regs locals →
      ∀ inst ∈ regionInsts f plan.region, ∀ slot counter result,
        boxedInst regs inst.kind = some result →
        (lowerFastInst f regs slot counter inst).Agrees YieldsNumber result := by
  intro agrees
  obtain ⟨locals, reached⟩ := halfRegisters_reached 0 7 (by decide) (by decide)
  have wrong := agrees halfFunction halfPlan halfFunction_wellFormed halfFunction_planned (by decide)
    _ locals reached halfInst (by simp [regionInsts, halfFunction, halfPlan, planRegion]) none 0
    (.int (-4)) (by decide)
  have run : lowerFastInst halfFunction (halfRegisters 0 7) none 0 halfInst = .value (-3) := by decide
  exact absurd (Option.some.inj (run ▸ wrong)) (by decide)

/-- `(0 - 8) // 2` is exact. -/
theorem unboxed_agrees_iff_exact_quotient :
    (lowerFastInst halfFunction (halfRegisters 0 8) none 0 halfInst).Agrees YieldsNumber (.int (-4)) := by
  obtain ⟨locals, reached⟩ := halfRegisters_reached 0 8 (by decide) (by decide)
  refine (unboxed_agrees_iff halfFunction_wellFormed halfFunction_planned (by decide) reached
    (by simp [regionInsts, halfFunction, halfPlan, planRegion]) none 0 (by decide)).1.mpr ?_
  rintro left right ⟨⟩ ⟨⟩
  exact .inr ⟨by decide, .inl (by decide)⟩

end Pon.Codegen
