import Pon.Codegen.Region
import Mathlib.Tactic.Linarith
import Mathlib.Tactic.Ring

/-!
# Loops over a constant range

A typed loop over a `range` with constant bounds keeps its cursor in a machine variable. The header
tests the cursor against the stop, hands it out as the item and advances it, in this order; the
advance comes before the next test and wraps around. The loop agrees with Python's `range` exactly
where the value after the last item is a 64-bit integer.
-/

namespace Pon.Codegen

open Ir

/-! ## Cursor loops -/

section Cursor

variable {α : Type*} (test : α → Prop) (next : α → α)

/-- The items of a loop that hands out its cursor while the test holds. A loop that never exits has
no items. -/
inductive CursorVisits : α → List α → Prop where
  | done {cursor : α} (exit : ¬test cursor) : CursorVisits cursor []
  | item {cursor : α} {items : List α} (enter : test cursor)
      (rest : CursorVisits (next cursor) items) : CursorVisits cursor (cursor :: items)

variable {test next}

/-- The items are the iterates of the cursor up to the first one that fails the test. -/
theorem cursorVisits_iff {cursor : α} {items : List α} :
    CursorVisits test next cursor items ↔
      items = (List.range items.length).map (fun i ↦ next^[i] cursor) ∧
        (∀ i < items.length, test (next^[i] cursor)) ∧ ¬test (next^[items.length] cursor) := by
  induction items generalizing cursor with
  | nil =>
    constructor
    · rintro (exit | _)
      exact ⟨rfl, fun i h ↦ absurd h (Nat.not_lt_zero i), exit⟩
    · rintro ⟨-, -, exit⟩
      exact .done exit
  | cons item items ih =>
    have shift : (List.range (items.length + 1)).map (fun i ↦ next^[i] cursor) =
        cursor :: (List.range items.length).map (fun i ↦ next^[i] (next cursor)) := by
      rw [List.range_succ_eq_map, List.map_cons, List.map_map]
      rfl
    rw [List.length_cons, shift, List.cons.injEq]
    constructor
    · rintro (_ | ⟨enter, rest⟩)
      obtain ⟨values, inside, exit⟩ := ih.mp rest
      refine ⟨⟨rfl, values⟩, fun i h ↦ ?_, exit⟩
      cases i with
      | zero => exact enter
      | succ i => exact inside i (Nat.lt_of_succ_lt_succ h)
    · rintro ⟨⟨rfl, values⟩, inside, exit⟩
      refine .item (inside 0 (Nat.succ_pos _)) (ih.mpr ⟨values, fun i h ↦ ?_, exit⟩)
      exact inside (i + 1) (Nat.succ_lt_succ h)

end Cursor

/-! ## Python ranges -/

/-- Whether a value lies before the stop, in the direction of the step. -/
def beforeStop (stop step value : ℤ) : Prop := if 0 < step then value < stop else stop < value

/-- The number of items of `range(start, stop, step)`. -/
def rangeLength (start stop step : ℤ) : ℕ :=
  if 0 < step then ((stop - start + step - 1) / step).toNat
  else ((start - stop - step - 1) / (-step)).toNat

/-- The items of `range(start, stop, step)` in order. -/
def pythonRange (start stop step : ℤ) : List ℤ :=
  (List.range (rangeLength start stop step)).map fun i : ℕ ↦ start + i * step

variable {start stop step : ℤ} {specs : List (Value × RangeIterSpec)} {body : Machine → Machine}
  {m : Machine} {items : List Int64} {f : Function} {head : BlockId}

/-- The values before the stop are the items. -/
theorem lt_rangeLength_iff (nonzero : step ≠ 0) (i : ℕ) :
    i < rangeLength start stop step ↔ beforeStop stop step (start + i * step) := by
  unfold rangeLength beforeStop
  split_ifs with positive
  · rw [Int.lt_toNat, ← Int.add_one_le_iff, Int.le_ediv_iff_mul_le positive, add_mul, one_mul]
    constructor <;> intro h <;> linarith
  · have negated : 0 < -step := by omega
    rw [Int.lt_toNat, ← Int.add_one_le_iff, Int.le_ediv_iff_mul_le negated, add_mul, one_mul, mul_neg]
    constructor <;> intro h <;> linarith

/-! ## Emitted code -/

/-- The numbers of the values and of the variables of the emitted code. -/
abbrev ClifValue := ℕ
abbrev Variable := ℕ

inductive IntCC where
  | signedLessThan | signedGreaterThan

inductive ClifInst where
  | iconst (result : ClifValue) (value : Int64)
  | useVar (result : ClifValue) (var : Variable)
  | defVar (var : Variable) (value : ClifValue)
  | icmp (result : ClifValue) (cc : IntCC) (lhs rhs : ClifValue)
  | iadd (result lhs rhs : ClifValue)

/-- The code of the current block, and how many values and variables there are. -/
structure FunctionBuilder where
  values : ℕ := 0
  vars : ℕ := 0
  code : List ClifInst := []

namespace FunctionBuilder

def iconst (b : FunctionBuilder) (value : Int64) : ClifValue × FunctionBuilder :=
  (b.values, { b with values := b.values + 1, code := b.code ++ [.iconst b.values value] })

def useVar (b : FunctionBuilder) (var : Variable) : ClifValue × FunctionBuilder :=
  (b.values, { b with values := b.values + 1, code := b.code ++ [.useVar b.values var] })

def defVar (b : FunctionBuilder) (var : Variable) (value : ClifValue) : FunctionBuilder :=
  { b with code := b.code ++ [.defVar var value] }

def icmp (b : FunctionBuilder) (cc : IntCC) (lhs rhs : ClifValue) : ClifValue × FunctionBuilder :=
  (b.values, { b with values := b.values + 1, code := b.code ++ [.icmp b.values cc lhs rhs] })

def iadd (b : FunctionBuilder) (lhs rhs : ClifValue) : ClifValue × FunctionBuilder :=
  (b.values, { b with values := b.values + 1, code := b.code ++ [.iadd b.values lhs rhs] })

def declareVar (b : FunctionBuilder) : Variable × FunctionBuilder :=
  (b.vars, { b with vars := b.vars + 1 })

def switchToBlock (b : FunctionBuilder) : FunctionBuilder := { b with code := [] }

end FunctionBuilder

structure FastRangeIter where
  current : Variable
  initialized : Bool

/-- What the lowering of typed loops remembers: the cursor of each iterator, the unboxed values and
the test of the last header. -/
structure FastLowerState where
  rangeIters : Value → Option FastRangeIter := fun _ ↦ none
  unboxed : Value → Option ClifValue := fun _ ↦ none
  lastFastForNext : Option ClifValue := none

def FastLowerState.insertRange (s : FastLowerState) (iter : Value) (range : FastRangeIter) :
    FastLowerState :=
  { s with rangeIters := Function.update s.rangeIters iter (some range) }

def ensureFastRangeIter (b : FunctionBuilder) (s : FastLowerState) (iter : Value) :
    FunctionBuilder × FastLowerState :=
  match s.rangeIters iter with
  | some _ => (b, s)
  | none =>
    let (current, b) := b.declareVar
    (b, s.insertRange iter ⟨current, false⟩)

def lowerRangeForNext (b : FunctionBuilder) (s : FastLowerState) (result iter : Value)
    (spec : RangeIterSpec) : Except String (ClifValue × FunctionBuilder × FastLowerState) :=
  if spec.step = 0 then .error "typed range iterator with zero step"
  else
    let (b, s) := ensureFastRangeIter b s iter
    match s.rangeIters iter with
    | none => .error "missing typed range iterator state"
    | some range =>
      let (current, b) :=
        if range.initialized then b.useVar range.current
        else
          let (start, b) := b.iconst spec.start
          (start, b.defVar range.current start)
      let (stop, b) := b.iconst spec.stop
      let cc := if 0 < spec.step then IntCC.signedLessThan else .signedGreaterThan
      let (hasItem, b) := b.icmp cc current stop
      let (step, b) := b.iconst spec.step
      let (next, b) := b.iadd current step
      let b := b.defVar range.current next
      let s := s.insertRange iter { range with initialized := true }
      .ok (current, b, { s with
        unboxed := Function.update s.unboxed result (some current)
        lastFastForNext := some hasItem })

/-- The start of the cursor of one loop header. -/
def preloadRangeIter (specs : List (Value × RangeIterSpec)) (b : FunctionBuilder)
    (s : FastLowerState) (inst : Inst) : Except String (FunctionBuilder × FastLowerState) :=
  match inst.kind with
  | .forNext iter =>
    match specs.lookup iter with
    | none => .ok (b, s)
    | some spec =>
      let (b, s) := ensureFastRangeIter b s iter
      match s.rangeIters iter with
      | none => .error "missing typed range iterator state"
      | some range =>
        if range.initialized then .ok (b, s)
        else
          let (start, b) := b.iconst spec.start
          .ok (b.defVar range.current start, s.insertRange iter { range with initialized := true })
  | _ => .ok (b, s)

def preloadRangeItersForSuccessor (b : FunctionBuilder) (s : FastLowerState) (f : Function)
    (successor : BlockId) : Except String (FunctionBuilder × FastLowerState) :=
  match f.block? successor with
  | none => .ok (b, s)
  | some block =>
    block.insts.foldlM (fun (b, s) inst ↦ preloadRangeIter (rangeIterSpecs f) b s inst) (b, s)

def successorFlowsToRegionEntry (f : Function) (successor regionEntry : BlockId) : Bool :=
  successor == regionEntry || (f.block? successor).any fun block ↦
    match block.term with
    | .forLoop _ body _ => body == regionEntry
    | _ => false

/-- The cursors a terminator starts before control moves on to `successor`. -/
def preloadRegionEntryForSuccessor (b : FunctionBuilder) (s : FastLowerState) (f : Function)
    (region : TypedRegion) (successor : BlockId) :
    Except String (FunctionBuilder × FastLowerState) :=
  if successorFlowsToRegionEntry f successor region.entry
  then preloadRangeItersForSuccessor b s f successor else .ok (b, s)

/-- A loop as emitted: the code before the jump to the header and the code of the header, which
branches on `hasItem` to the body with `item`. -/
structure RangeLoop where
  preheader : List ClifInst
  header : List ClifInst
  current : Variable
  item : ClifValue
  hasItem : ClifValue

/-- The jump into the header `head` and the header of a loop, lowered one after the other. -/
def lowerRangeLoop (b : FunctionBuilder) (s : FastLowerState) (f : Function) (region : TypedRegion)
    (head : BlockId) (result iter : Value) (spec : RangeIterSpec) : Except String RangeLoop := do
  let (before, s) ← preloadRegionEntryForSuccessor b s f region head
  let (item, after, s) ← lowerRangeForNext before.switchToBlock s result iter spec
  match s.rangeIters iter, s.lastFastForNext with
  | some range, some hasItem => return ⟨before.code, after.code, range.current, item, hasItem⟩
  | _, _ => throw "missing typed range iterator state"

/-! ## Running the code -/

structure Machine where
  values : ClifValue → Int64
  vars : Variable → Int64

/-- A comparison gives one or zero, and an addition wraps around. -/
def Machine.exec (m : Machine) : ClifInst → Machine
  | .iconst result value => { m with values := Function.update m.values result value }
  | .useVar result var =>
    { m with values := Function.update m.values result (m.vars var) }
  | .defVar var value =>
    { m with vars := Function.update m.vars var (m.values value) }
  | .icmp result .signedLessThan lhs rhs =>
    { m with values :=
        Function.update m.values result (if m.values lhs < m.values rhs then 1 else 0) }
  | .icmp result .signedGreaterThan lhs rhs =>
    { m with values :=
        Function.update m.values result (if m.values rhs < m.values lhs then 1 else 0) }
  | .iadd result lhs rhs =>
    { m with values := Function.update m.values result (m.values lhs + m.values rhs) }

def Machine.run (m : Machine) (code : List ClifInst) : Machine := code.foldl Machine.exec m

/-- The items that a loop hands to its body, from the header on to the exit. -/
inductive RangeLoop.Visits (loop : RangeLoop) (body : Machine → Machine) :
    Machine → List Int64 → Prop where
  | done {m : Machine} (exit : (m.run loop.header).values loop.hasItem = 0) :
      Visits loop body m []
  | item {m : Machine} {items : List Int64}
      (enter : (m.run loop.header).values loop.hasItem ≠ 0)
      (rest : Visits loop body (body (m.run loop.header)) items) :
      Visits loop body m ((m.run loop.header).values loop.item :: items)

/-- A loop entered through its preheader steps through `range(start, stop, step)` and exits. The
cursor is private to the loop: no body writes it. -/
def RangeLoop.StepsThrough (loop : RangeLoop) (spec : RangeIterSpec) : Prop :=
  ∀ (body : Machine → Machine) (m : Machine),
    (∀ m, (body m).vars loop.current = m.vars loop.current) →
    ∃ items, loop.Visits body (m.run loop.preheader) items ∧
      items.map Int64.toInt = pythonRange spec.start.toInt spec.stop.toInt spec.step.toInt

/-! ## The cursor of a range -/

namespace RangeIterSpec

/-- The test of the header and the advance behind it. -/
def test (spec : RangeIterSpec) (cursor : Int64) : Prop :=
  if 0 < spec.step then cursor < spec.stop else spec.stop < cursor

def next (spec : RangeIterSpec) (cursor : Int64) : Int64 := cursor + spec.step

/-- The number of items of the range. -/
def length (spec : RangeIterSpec) : ℕ :=
  rangeLength spec.start.toInt spec.stop.toInt spec.step.toInt

/-- The value after the last item, which ends the range. -/
def pastEnd (spec : RangeIterSpec) : ℤ := spec.start.toInt + spec.length * spec.step.toInt

def Fits (spec : RangeIterSpec) : Prop := -2 ^ 63 ≤ spec.pastEnd ∧ spec.pastEnd < 2 ^ 63

instance (spec : RangeIterSpec) : Decidable spec.Fits := inferInstanceAs (Decidable (_ ∧ _))

theorem test_iff (spec : RangeIterSpec) (cursor : Int64) :
    spec.test cursor ↔ beforeStop spec.stop.toInt spec.step.toInt cursor.toInt := by
  simp only [test, beforeStop, Int64.lt_iff_toInt_lt, Int64.toInt_zero]

theorem bmod_eq_self {value : ℤ} (low : -2 ^ 63 ≤ value) (high : value < 2 ^ 63) :
    value.bmod (2 ^ 64) = value := by
  rw [Int.bmod_def]
  split_ifs <;> omega

theorem toInt_iterate (spec : RangeIterSpec) (i : ℕ) :
    (spec.next^[i] spec.start).toInt = (spec.start.toInt + i * spec.step.toInt).bmod (2 ^ 64) := by
  induction i with
  | zero =>
    rw [Function.iterate_zero, id, Nat.cast_zero, zero_mul, add_zero,
      bmod_eq_self spec.start.le_toInt spec.start.toInt_lt]
  | succ i ih =>
    rw [Function.iterate_succ_apply', next, Int64.toInt_add, ih, Int.bmod_add_bmod, Nat.cast_succ,
      add_mul, one_mul, add_assoc]

variable {spec : RangeIterSpec}

variable {i : ℕ} (nonzero : spec.step ≠ 0)
include nonzero

/-- The items of a range lie between its bounds, and so are 64-bit integers. -/
theorem item_bounds (inside : i < spec.length) :
    -2 ^ 63 ≤ spec.start.toInt + i * spec.step.toInt ∧
      spec.start.toInt + i * spec.step.toInt < 2 ^ 63 := by
  have nonzeroInt : spec.step.toInt ≠ 0 := fun h ↦ nonzero (Int64.toInt_inj.mp h)
  have before := (lt_rangeLength_iff nonzeroInt i).mp inside
  have startLow := spec.start.le_toInt
  have startHigh := spec.start.toInt_lt
  have stopLow := spec.stop.le_toInt
  have stopHigh := spec.stop.toInt_lt
  unfold beforeStop at before
  split_ifs at before with positive
  · have grown : 0 ≤ (i : ℤ) * spec.step.toInt := mul_nonneg (Int.natCast_nonneg i) positive.le
    omega
  · have shrunk : (i : ℤ) * spec.step.toInt ≤ 0 :=
      mul_nonpos_of_nonneg_of_nonpos (Int.natCast_nonneg i) (not_lt.mp positive)
    omega

theorem toInt_item (inside : i < spec.length) :
    (spec.next^[i] spec.start).toInt = spec.start.toInt + i * spec.step.toInt := by
  obtain ⟨low, high⟩ := item_bounds nonzero inside
  rw [toInt_iterate, bmod_eq_self low high]

/-- The value after the last item is not before the stop. -/
theorem not_beforeStop_pastEnd :
    ¬beforeStop spec.stop.toInt spec.step.toInt spec.pastEnd := by
  have nonzeroInt : spec.step.toInt ≠ 0 := fun h ↦ nonzero (Int64.toInt_inj.mp h)
  intro before
  exact lt_irrefl _ ((lt_rangeLength_iff nonzeroInt spec.length).mpr before)

/-- A value after the last item that does not fit comes around on the other side of the stop. -/
theorem beforeStop_wrapped (overflow : ¬spec.Fits) :
    beforeStop spec.stop.toInt spec.step.toInt (spec.pastEnd.bmod (2 ^ 64)) := by
  have startLow := spec.start.le_toInt
  have startHigh := spec.start.toInt_lt
  have stopLow := spec.stop.le_toInt
  have stopHigh := spec.stop.toInt_lt
  have stepLow := spec.step.le_toInt
  have stepHigh := spec.step.toInt_lt
  have positiveLength : 0 < spec.length := by
    refine Nat.pos_of_ne_zero fun empty ↦ overflow ?_
    have atStart : spec.pastEnd = spec.start.toInt := by
      rw [pastEnd, empty, Nat.cast_zero, zero_mul, add_zero]
    exact ⟨by omega, by omega⟩
  have last := item_bounds nonzero (Nat.sub_one_lt_of_lt positiveLength)
  have nonzeroInt : spec.step.toInt ≠ 0 := fun h ↦ nonzero (Int64.toInt_inj.mp h)
  have lastBefore : beforeStop spec.stop.toInt spec.step.toInt
      (spec.start.toInt + ((spec.length - 1 : ℕ) : ℤ) * spec.step.toInt) :=
    (lt_rangeLength_iff nonzeroInt _).mp (Nat.sub_one_lt_of_lt positiveLength)
  have advance : spec.pastEnd =
      spec.start.toInt + ((spec.length - 1 : ℕ) : ℤ) * spec.step.toInt + spec.step.toInt := by
    rw [pastEnd, Nat.cast_sub positiveLength, Nat.cast_one, sub_mul, one_mul]
    ring
  generalize spec.start.toInt + ((spec.length - 1 : ℕ) : ℤ) * spec.step.toInt = lastItem at *
  have outside : spec.pastEnd < -2 ^ 63 ∨ 2 ^ 63 ≤ spec.pastEnd := by
    by_contra inside
    exact overflow ⟨by omega, by omega⟩
  unfold beforeStop at lastBefore ⊢
  rw [Int.bmod_def]
  split_ifs at lastBefore ⊢ <;> omega

/-- The wrapping cursor steps through the range and stops behind it exactly where the value after the
last item fits. -/
theorem cursorVisits_range_iff :
    (∃ items, CursorVisits spec.test spec.next spec.start items ∧
      items.map Int64.toInt = pythonRange spec.start.toInt spec.stop.toInt spec.step.toInt) ↔
      spec.Fits := by
  constructor
  · rintro ⟨items, visits, values⟩
    by_contra overflow
    have count : items.length = spec.length := by
      have lengths := congrArg List.length values
      rwa [List.length_map, pythonRange, List.length_map, List.length_range] at lengths
    obtain ⟨-, -, exit⟩ := cursorVisits_iff.mp visits
    rw [count, test_iff, toInt_iterate] at exit
    exact exit (beforeStop_wrapped nonzero overflow)
  · intro fits
    have nonzeroInt : spec.step.toInt ≠ 0 := fun h ↦ nonzero (Int64.toInt_inj.mp h)
    refine ⟨(List.range spec.length).map fun i ↦ spec.next^[i] spec.start,
      cursorVisits_iff.mpr ⟨?_, fun i h ↦ ?_, ?_⟩, ?_⟩
    · rw [List.length_map, List.length_range]
    · rw [List.length_map, List.length_range] at h
      rw [test_iff, toInt_item nonzero h]
      exact (lt_rangeLength_iff nonzeroInt i).mp h
    · rw [List.length_map, List.length_range, test_iff, toInt_iterate, ← pastEnd,
        bmod_eq_self fits.1 fits.2]
      exact not_beforeStop_pastEnd nonzero
    · rw [List.map_map, pythonRange]
      exact List.map_congr_left fun i h ↦ toInt_item nonzero (List.mem_range.mp h)

end RangeIterSpec

/-! ## The cursor is started -/

/-- The cursors are variables that the builder has declared, one for each iterator. -/
structure FastLowerState.Declared (s : FastLowerState) (b : FunctionBuilder) : Prop where
  lt : ∀ {iter range}, s.rangeIters iter = some range → range.current < b.vars
  inj : ∀ {iter other range otherRange}, s.rangeIters iter = some range →
    s.rangeIters other = some otherRange → range.current = otherRange.current → iter = other

/-- If the cursor of an iterator is marked as started, then the code starts it. -/
def FastLowerState.Started (s : FastLowerState) (b : FunctionBuilder) (iter : Value)
    (spec : RangeIterSpec) : Prop :=
  ∀ range, s.rangeIters iter = some range → range.initialized = true →
    ∀ m : Machine, (m.run b.code).vars range.current = spec.start

variable {s : FastLowerState} {iter : Value} {range : FastRangeIter} {b : FunctionBuilder}
  {spec : RangeIterSpec} {loop : RangeLoop}

theorem FastLowerState.insertRange_eq_some {other : Value} {found : FastRangeIter} :
    (s.insertRange iter range).rangeIters other = some found ↔
      other = iter ∧ range = found ∨ other ≠ iter ∧ s.rangeIters other = some found := by
  by_cases same : other = iter
  · subst same
    simp [insertRange]
  · simp [insertRange, same]

theorem FastLowerState.insertRange_self (s : FastLowerState) (iter : Value) (range : FastRangeIter) :
    (s.insertRange iter range).rangeIters iter = some range := Function.update_self ..

/-- A cursor that no other iterator has may be recorded. -/
theorem FastLowerState.Declared.insertRange {b' : FunctionBuilder} (declared : s.Declared b)
    (grown : b.vars ≤ b'.vars) (bound : range.current < b'.vars)
    (own : ∀ {other found}, other ≠ iter → s.rangeIters other = some found →
      found.current ≠ range.current) : (s.insertRange iter range).Declared b' := by
  constructor
  · intro other found h
    rcases insertRange_eq_some.mp h with ⟨-, rfl⟩ | ⟨-, old⟩
    · exact bound
    · exact Nat.lt_of_lt_of_le (declared.lt old) grown
  · intro left right leftRange rightRange hleft hright same
    rcases insertRange_eq_some.mp hleft with ⟨isLeft, rfl⟩ | ⟨notLeft, oldLeft⟩ <;>
      rcases insertRange_eq_some.mp hright with ⟨isRight, rfl⟩ | ⟨notRight, oldRight⟩
    · rw [isLeft, isRight]
    · exact absurd same.symm (own notRight oldRight)
    · exact absurd same (own notLeft oldLeft)
    · exact declared.inj oldLeft oldRight same

theorem ensureFastRangeIter_some (known : s.rangeIters iter = some range) :
    ensureFastRangeIter b s iter = (b, s) := by
  simp only [ensureFastRangeIter, known]

theorem ensureFastRangeIter_none (fresh : s.rangeIters iter = none) :
    ensureFastRangeIter b s iter =
      ({ b with vars := b.vars + 1 }, s.insertRange iter ⟨b.vars, false⟩) := by
  simp only [ensureFastRangeIter, fresh, FunctionBuilder.declareVar]

/-- A cursor is declared where there was none, and nothing else changes. -/
theorem ensureFastRangeIter_spec (iter : Value) (declared : s.Declared b) :
    ∃ b' s' range, ensureFastRangeIter b s iter = (b', s') ∧ s'.Declared b' ∧ b'.code = b.code ∧
      s'.rangeIters iter = some range ∧
      (∀ other found, s.rangeIters other = some found → s'.rangeIters other = some found) ∧
      ∀ other found, s'.rangeIters other = some found →
        s.rangeIters other = some found ∨ found.initialized = false := by
  cases known : s.rangeIters iter with
  | some range =>
    exact ⟨b, s, range, ensureFastRangeIter_some known, declared, rfl, known,
      fun _ _ h ↦ h, fun _ _ h ↦ .inl h⟩
  | none =>
    refine ⟨_, _, _, ensureFastRangeIter_none known, ?_, rfl, s.insertRange_self .., ?_, ?_⟩
    · refine declared.insertRange (Nat.le_succ _) (Nat.lt_succ_self _) fun _ old ↦ ?_
      exact Nat.ne_of_lt (declared.lt old)
    · intro other found h
      refine FastLowerState.insertRange_eq_some.mpr (.inr ⟨?_, h⟩)
      rintro rfl
      rw [known] at h
      cases h
    · intro other found h
      rcases FastLowerState.insertRange_eq_some.mp h with ⟨-, rfl⟩ | ⟨-, old⟩
      · exact .inr rfl
      · exact .inl old

/-- Whether the cursor of an iterator is marked as started. -/
def FastLowerState.Marked (s : FastLowerState) (iter : Value) : Prop :=
  ∃ range, s.rangeIters iter = some range ∧ range.initialized = true

/-- One instruction of a header starts the cursor of its iterator, unless it has been started. -/
theorem preloadRangeIter_spec (inst : Inst) (accepted : specs.lookup iter = some spec)
    (declared : s.Declared b) (started : s.Started b iter spec) :
    ∃ b' s', preloadRangeIter specs b s inst = .ok (b', s') ∧ s'.Declared b' ∧
      s'.Started b' iter spec ∧ (inst.kind = .forNext iter ∨ s.Marked iter → s'.Marked iter) := by
  by_cases isNext : ∃ own, inst.kind = .forNext own
  case neg =>
    refine ⟨b, s, ?_, declared, started, fun h ↦ h.resolve_left fun kind ↦ isNext ⟨_, kind⟩⟩
    unfold preloadRangeIter
    split
    · next own kind => exact absurd ⟨own, kind⟩ isNext
    · rfl
  obtain ⟨own, kind⟩ := isNext
  cases found : specs.lookup own with
  | none =>
    refine ⟨b, s, ?_, declared, started, fun h ↦ h.resolve_left ?_⟩
    · simp only [preloadRangeIter, kind, found]
    · rw [kind]
      rintro ⟨⟩
      rw [found] at accepted
      cases accepted
  | some ownSpec =>
    obtain ⟨b₁, s₁, range, ensured, declared₁, code, known, keep, old⟩ :=
      ensureFastRangeIter_spec own declared
    have started₁ : s₁.Started b₁ iter spec := by
      intro found mem marked m
      rcases old iter found mem with before | unmarked
      · rw [code]
        exact started found before marked m
      · rw [marked] at unmarked
        cases unmarked
    have marked₁ : s.Marked iter → s₁.Marked iter := fun ⟨range, h, marked⟩ ↦
      ⟨range, keep iter range h, marked⟩
    by_cases initialized : range.initialized = true
    · refine ⟨b₁, s₁, ?_, declared₁, started₁, ?_⟩
      · simp only [preloadRangeIter, kind, found, ensured, known, initialized, if_true]
      · rintro (isIter | marked)
        · rw [kind] at isIter
          cases isIter
          exact ⟨range, known, initialized⟩
        · exact marked₁ marked
    · refine ⟨(b₁.iconst ownSpec.start).2.defVar range.current b₁.values,
        s₁.insertRange own { range with initialized := true }, ?_, ?_, ?_, ?_⟩
      · simp only [preloadRangeIter, kind, found, ensured, known, initialized, if_false,
          FunctionBuilder.iconst, Bool.false_eq_true]
      · have bound : range.current < b₁.vars := declared₁.lt known
        refine declared₁.insertRange le_rfl bound fun different h same ↦ ?_
        exact different (declared₁.inj h known same)
      · intro other mem marked m
        have run : (m.run ((b₁.iconst ownSpec.start).2.defVar range.current b₁.values).code).vars =
            Function.update (m.run b₁.code).vars range.current ownSpec.start := by
          simp [FunctionBuilder.iconst, FunctionBuilder.defVar, Machine.run, Machine.exec]
        rw [run]
        rcases FastLowerState.insertRange_eq_some.mp mem with ⟨rfl, rfl⟩ | ⟨different, before⟩
        · rw [accepted] at found
          cases found
          exact Function.update_self ..
        · rw [Function.update_of_ne fun same ↦ different (declared₁.inj before known same)]
          exact started₁ other before marked m
      · rintro (isIter | marked)
        · rw [kind] at isIter
          cases isIter
          exact ⟨_, FastLowerState.insertRange_self .., rfl⟩
        · obtain ⟨other, mem, isMarked⟩ := marked₁ marked
          by_cases same : iter = own
          · subst same
            exact ⟨_, FastLowerState.insertRange_self .., rfl⟩
          · exact ⟨other, FastLowerState.insertRange_eq_some.mpr (.inr ⟨same, mem⟩), isMarked⟩

/-- The jump into a header starts the cursors of its iterators. -/
theorem preloadRangeIters_spec (accepted : specs.lookup iter = some spec) (insts : List Inst)
    (declared : s.Declared b) (started : s.Started b iter spec) :
    ∃ b' s', insts.foldlM (fun state inst ↦ preloadRangeIter specs state.1 state.2 inst) (b, s) =
        .ok (b', s') ∧ s'.Declared b' ∧ s'.Started b' iter spec ∧
      ((∃ inst ∈ insts, inst.kind = .forNext iter) ∨ s.Marked iter → s'.Marked iter) := by
  induction insts generalizing b s with
  | nil =>
    refine ⟨b, s, rfl, declared, started, ?_⟩
    rintro (⟨inst, mem, -⟩ | marked)
    · exact absurd mem List.not_mem_nil
    · exact marked
  | cons inst insts ih =>
    obtain ⟨b₁, s₁, run, declared₁, started₁, marks⟩ :=
      preloadRangeIter_spec inst accepted declared started
    obtain ⟨b₂, s₂, rest, declared₂, started₂, marksRest⟩ := ih declared₁ started₁
    refine ⟨b₂, s₂, ?_, declared₂, started₂, ?_⟩
    · rw [List.foldlM_cons, run]
      exact rest
    · rintro (⟨other, mem, kind⟩ | marked)
      · rcases List.mem_cons.mp mem with rfl | tail
        · exact marksRest (.inr (marks (.inl kind)))
        · exact marksRest (.inl ⟨other, tail, kind⟩)
      · exact marksRest (.inr (marks (.inr marked)))

/-! ## The header -/

/-- The code of a header behind the cursor it hands out. -/
def steppingCode (spec : RangeIterSpec) (cursor : Variable) (item : ClifValue) : List ClifInst :=
  [.iconst (item + 1) spec.stop,
    .icmp (item + 2) (if 0 < spec.step then .signedLessThan else .signedGreaterThan) item (item + 1),
    .iconst (item + 3) spec.step, .iadd (item + 4) item (item + 3), .defVar cursor (item + 4)]

theorem run_steppingCode (spec : RangeIterSpec) (cursor : Variable) (item : ClifValue) (m : Machine) :
    (m.run (steppingCode spec cursor item)).values item = m.values item ∧
      ((m.run (steppingCode spec cursor item)).values (item + 2) ≠ 0 ↔ spec.test (m.values item)) ∧
      (m.run (steppingCode spec cursor item)).vars cursor = spec.next (m.values item) := by
  by_cases positive : 0 < spec.step <;>
    simp [steppingCode, Machine.run, Machine.exec, positive, RangeIterSpec.test, RangeIterSpec.next]

/-- A header whose cursor has been started loads it. -/
theorem lowerRangeForNext_marked (b : FunctionBuilder) (result : Value) (nonzero : spec.step ≠ 0)
    (known : s.rangeIters iter = some range) (marked : range.initialized = true) :
    ∃ b' s', lowerRangeForNext b s result iter spec = .ok (b.values, b', s') ∧
      b'.code = b.code ++ .useVar b.values range.current :: steppingCode spec range.current b.values ∧
      s'.rangeIters iter = some range ∧ s'.lastFastForNext = some (b.values + 2) := by
  refine ⟨_, _, by simp only [lowerRangeForNext, nonzero, if_false, ensureFastRangeIter_some known,
    known, marked, if_true]; rfl, ?_, ?_, rfl⟩
  · simp [FunctionBuilder.useVar, FunctionBuilder.iconst, FunctionBuilder.icmp,
      FunctionBuilder.iadd, FunctionBuilder.defVar, steppingCode]
  · obtain ⟨current, initialized⟩ := range
    cases marked
    exact FastLowerState.insertRange_self ..

/-- A header whose cursor is not known starts it itself, each time it runs. -/
theorem lowerRangeForNext_fresh (b : FunctionBuilder) (result : Value) (nonzero : spec.step ≠ 0)
    (fresh : s.rangeIters iter = none) :
    ∃ b' s', lowerRangeForNext b s result iter spec = .ok (b.values, b', s') ∧
      b'.code = b.code ++ .iconst b.values spec.start :: .defVar b.vars b.values ::
        steppingCode spec b.vars b.values ∧
      s'.rangeIters iter = some ⟨b.vars, true⟩ ∧ s'.lastFastForNext = some (b.values + 2) := by
  refine ⟨_, _, by simp only [lowerRangeForNext, nonzero, if_false, ensureFastRangeIter_none fresh,
    FastLowerState.insertRange_self, Bool.false_eq_true]; rfl, ?_, ?_, rfl⟩
  · simp [FunctionBuilder.iconst, FunctionBuilder.icmp, FunctionBuilder.iadd,
      FunctionBuilder.defVar, steppingCode]
  · exact FastLowerState.insertRange_self ..

/-- A loop that loads its cursor is the cursor loop of its range. -/
theorem visits_iff_of_loads (header : loop.header = .useVar loop.item loop.current ::
      steppingCode spec loop.current loop.item) (test : loop.hasItem = loop.item + 2)
    (keeps : ∀ m, (body m).vars loop.current = m.vars loop.current) :
    loop.Visits body m items ↔ CursorVisits spec.test spec.next (m.vars loop.current) items := by
  have effect (m : Machine) : (m.run loop.header).values loop.item = m.vars loop.current ∧
      ((m.run loop.header).values loop.hasItem ≠ 0 ↔ spec.test (m.vars loop.current)) ∧
      (m.run loop.header).vars loop.current = spec.next (m.vars loop.current) := by
    have stepping := run_steppingCode spec loop.current loop.item
      (m.exec (.useVar loop.item loop.current))
    simp only [Machine.exec, Function.update_self] at stepping
    rw [header, test]
    exact stepping
  constructor
  · intro visits
    induction visits with
    | done exit => exact .done fun enter ↦ (effect _).2.1.mpr enter exit
    | item enter rest ih =>
      rw [keeps, (effect _).2.2] at ih
      rw [(effect _).1]
      exact .item ((effect _).2.1.mp enter) ih
  · intro visits
    induction items generalizing m with
    | nil =>
      rcases visits with exit | _
      exact .done (not_not.mp fun enter ↦ exit ((effect m).2.1.mp enter))
    | cons item items ih =>
      rcases visits with _ | ⟨enter, rest⟩
      have later : loop.Visits body (body (m.run loop.header)) items := by
        refine ih ?_
        rw [keeps, (effect m).2.2]
        exact rest
      have head := RangeLoop.Visits.item ((effect m).2.1.mpr enter) later
      rwa [(effect m).1] at head

/-- A loop whose header starts the cursor hands out the first item for ever. -/
theorem visits_iff_of_starts
    (header : loop.header = .iconst loop.item spec.start :: .defVar loop.current loop.item ::
      steppingCode spec loop.current loop.item) (test : loop.hasItem = loop.item + 2) :
    loop.Visits body m items ↔ items = [] ∧ ¬spec.test spec.start := by
  have effect (m : Machine) :
      (m.run loop.header).values loop.hasItem ≠ 0 ↔ spec.test spec.start := by
    have stepping := run_steppingCode spec loop.current loop.item
      ((m.exec (.iconst loop.item spec.start)).exec (.defVar loop.current loop.item))
    have start : ((m.exec (.iconst loop.item spec.start)).exec
        (.defVar loop.current loop.item)).values loop.item = spec.start := Function.update_self ..
    rw [start] at stepping
    rw [header, test]
    exact stepping.2.1
  constructor
  · intro visits
    induction visits with
    | done exit => exact ⟨rfl, fun enter ↦ (effect _).mpr enter exit⟩
    | item enter rest ih => exact absurd ((effect _).mp enter) ih.2
  · rintro ⟨rfl, exit⟩
    exact .done (not_not.mp fun enter ↦ exit ((effect m).mp enter))

/-! ## The loop as emitted -/

/-- The bounds that are collected for an iterator, the header that advances it, and a state in which
its loop has not been lowered yet. -/
structure RangeHeader (f : Function) (b : FunctionBuilder) (s : FastLowerState) (head : BlockId)
    (iter : Value) (spec : RangeIterSpec) : Prop where
  accepted : (rangeIterSpecs f).lookup iter = some spec
  nonzero : spec.step ≠ 0
  advances : ∃ block, f.block? head = some block ∧ ∃ inst ∈ block.insts, inst.kind = .forNext iter
  declared : s.Declared b
  fresh : s.rangeIters iter = none

theorem pythonRange_eq_nil_iff (spec : RangeIterSpec) (nonzero : spec.step ≠ 0) :
    pythonRange spec.start.toInt spec.stop.toInt spec.step.toInt = [] ↔ ¬spec.test spec.start := by
  have nonzeroInt : spec.step.toInt ≠ 0 := fun h ↦ nonzero (Int64.toInt_inj.mp h)
  have first : 0 < rangeLength spec.start.toInt spec.stop.toInt spec.step.toInt ↔ _ :=
    lt_rangeLength_iff nonzeroInt 0
  rw [Nat.cast_zero, zero_mul, add_zero, ← spec.test_iff] at first
  rw [← first, pythonRange, List.map_eq_nil_iff, List.range_eq_nil, Nat.pos_iff_ne_zero, not_not]

/-- A loop that loads a cursor started before it steps through the range exactly where the value after
the last item fits. -/
theorem stepsThrough_of_loads (nonzero : spec.step ≠ 0)
    (header : loop.header = .useVar loop.item loop.current ::
      steppingCode spec loop.current loop.item) (test : loop.hasItem = loop.item + 2)
    (start : ∀ m : Machine, (m.run loop.preheader).vars loop.current = spec.start) :
    loop.StepsThrough spec ↔ spec.Fits := by
  rw [← RangeIterSpec.cursorVisits_range_iff nonzero]
  constructor
  · intro steps
    obtain ⟨items, run, values⟩ := steps id ⟨fun _ ↦ 0, fun _ ↦ 0⟩ fun _ ↦ rfl
    have visits := (visits_iff_of_loads header test fun _ ↦ rfl).mp run
    rw [start] at visits
    exact ⟨items, visits, values⟩
  · rintro ⟨items, run, values⟩ body m keeps
    refine ⟨items, (visits_iff_of_loads header test keeps).mpr ?_, values⟩
    rw [start]
    exact run

/-- A loop whose header starts the cursor steps through the range only if that is empty. -/
theorem stepsThrough_of_starts (nonzero : spec.step ≠ 0)
    (header : loop.header = .iconst loop.item spec.start :: .defVar loop.current loop.item ::
      steppingCode spec loop.current loop.item) (test : loop.hasItem = loop.item + 2) :
    loop.StepsThrough spec ↔ ¬spec.test spec.start := by
  constructor
  · intro steps
    obtain ⟨items, run, -⟩ := steps id ⟨fun _ ↦ 0, fun _ ↦ 0⟩ fun _ ↦ rfl
    exact ((visits_iff_of_starts header test).mp run).2
  · intro exit body m _
    refine ⟨[], (visits_iff_of_starts header test).mpr ⟨rfl, exit⟩, ?_⟩
    rw [List.map_nil, (pythonRange_eq_nil_iff spec nonzero).mpr exit]

/-- An empty range ends at its start. -/
theorem RangeIterSpec.fits_of_not_test (nonzero : spec.step ≠ 0) (exit : ¬spec.test spec.start) :
    spec.Fits := by
  refine (cursorVisits_range_iff nonzero).mp ⟨[], .done exit, ?_⟩
  rw [List.map_nil, (pythonRange_eq_nil_iff spec nonzero).mpr exit]

variable (region : TypedRegion)

/-- The loop behind a jump that starts the cursors of its header. -/
theorem lowerRangeLoop_of_flows (result : Value)
    (header : RangeHeader f b s head iter spec)
    (flows : successorFlowsToRegionEntry f head region.entry = true) :
    ∃ loop, lowerRangeLoop b s f region head result iter spec = .ok loop ∧
      (loop.StepsThrough spec ↔ spec.Fits) := by
  obtain ⟨block, isBlock, advances⟩ := header.advances
  have notStarted : s.Started b iter spec := by
    intro range h
    rw [header.fresh] at h
    cases h
  obtain ⟨b₁, s₁, preload, -, started, marks⟩ :=
    preloadRangeIters_spec header.accepted block.insts header.declared notStarted
  obtain ⟨range, known, marked⟩ := marks (.inl advances)
  obtain ⟨b₂, s₂, lowered, code, knownAfter, test⟩ :=
    lowerRangeForNext_marked b₁.switchToBlock result header.nonzero known marked
  have preloaded : preloadRegionEntryForSuccessor b s f region head = .ok (b₁, s₁) := by
    rw [preloadRegionEntryForSuccessor, if_pos flows, preloadRangeItersForSuccessor, isBlock]
    exact preload
  refine ⟨⟨b₁.code, b₂.code, range.current, b₁.switchToBlock.values, b₁.switchToBlock.values + 2⟩,
    ?_, stepsThrough_of_loads header.nonzero code rfl (started range known marked)⟩
  simp only [lowerRangeLoop, preloaded, bind, Except.bind, lowered, knownAfter, test]
  rfl

/-- The loop behind any other jump. -/
theorem lowerRangeLoop_of_not_flows (result : Value)
    (header : RangeHeader f b s head iter spec)
    (flows : ¬successorFlowsToRegionEntry f head region.entry = true) :
    ∃ loop, lowerRangeLoop b s f region head result iter spec = .ok loop ∧
      (loop.StepsThrough spec ↔ ¬spec.test spec.start) := by
  obtain ⟨b₂, s₂, lowered, code, knownAfter, test⟩ :=
    lowerRangeForNext_fresh b.switchToBlock result header.nonzero header.fresh
  have preloaded : preloadRegionEntryForSuccessor b s f region head = .ok (b, s) := by
    rw [preloadRegionEntryForSuccessor, if_neg flows]
  refine ⟨⟨b.code, b₂.code, b.vars, b.switchToBlock.values, b.switchToBlock.values + 2⟩, ?_,
    stepsThrough_of_starts header.nonzero code rfl⟩
  simp only [lowerRangeLoop, preloaded, bind, Except.bind, lowered, knownAfter, test]
  rfl

/-- The unboxed loop over a constant range steps through Python's range and exits exactly where the
range is empty, or the cursor is started ahead of the loop and the value after the last item is a
64-bit integer. -/
theorem lowerRangeLoop_stepsThrough_iff {f : Function} {b : FunctionBuilder}
    {s : FastLowerState} {head : BlockId} {iter : Value} {spec : RangeIterSpec}
    (region : TypedRegion) (result : Value)
    (header : RangeHeader f b s head iter spec) :
    ∃ loop, lowerRangeLoop b s f region head result iter spec = .ok loop ∧
      (loop.StepsThrough spec ↔
        ¬spec.test spec.start ∨
          successorFlowsToRegionEntry f head region.entry = true ∧ spec.Fits) := by
  by_cases flows : successorFlowsToRegionEntry f head region.entry = true
  · obtain ⟨loop, lowered, steps⟩ := lowerRangeLoop_of_flows region result header flows
    refine ⟨loop, lowered, steps.trans ⟨fun fits ↦ .inr ⟨flows, fits⟩, ?_⟩⟩
    rintro (exit | ⟨-, fits⟩)
    · exact RangeIterSpec.fits_of_not_test header.nonzero exit
    · exact fits
  · obtain ⟨loop, lowered, steps⟩ := lowerRangeLoop_of_not_flows region result header flows
    refine ⟨loop, lowered, steps.trans ⟨.inl, ?_⟩⟩
    rintro (exit | ⟨ahead, -⟩)
    · exact exit
    · exact absurd ahead flows

/-! ## Two loops -/

/-- `for i in range(start, stop, step): pass` with the value numbers that lowering gives. -/
def rangeFunction (start stop step : ℤ) : Function where
  blocks :=
    [⟨0, [⟨0, .loadGlobal "range", .bottom, .object⟩, ⟨1, .const (.int start), .bottom, .object⟩,
        ⟨2, .const (.int stop), .bottom, .object⟩, ⟨3, .const (.int step), .bottom, .object⟩,
        ⟨4, .call 0 [1, 2, 3], .bottom, .object⟩, ⟨5, .getIter 4, .bottom, .object⟩], .jump 1⟩,
      ⟨1, [⟨6, .forNext 5, .intI64, .object⟩], .forLoop 5 2 3⟩,
      ⟨2, [⟨7, .storeLocal 0 6, .intI64, .object⟩], .jump 1⟩,
      ⟨3, [⟨8, .const .none, .bottom, .object⟩], .ret 8⟩]

theorem rangeHeader_rangeFunction (nonzero : Int64.ofInt step ≠ 0) :
    RangeHeader (rangeFunction start stop step) {} {} 1 5
      ⟨Int64.ofInt start, Int64.ofInt stop, Int64.ofInt step⟩ where
  accepted := rfl
  nonzero := nonzero
  advances := ⟨_, rfl, _, List.mem_singleton_self _, rfl⟩
  declared := ⟨nofun, nofun⟩
  fresh := rfl

/-- Counting to three goes through the range. -/
theorem lowerRangeLoop_stepsThrough_iff_three :
    ∃ region, findMaximalTypedRegion (rangeFunction 0 3 1) = some region ∧
      ∃ loop, lowerRangeLoop {} {} (rangeFunction 0 3 1) region 1 6 5 ⟨0, 3, 1⟩ = .ok loop ∧
        loop.StepsThrough ⟨0, 3, 1⟩ := by
  obtain ⟨region, found, entry⟩ := Option.map_eq_some_iff.mp
    (show (findMaximalTypedRegion (rangeFunction 0 3 1)).map (·.entry) = some 1 by decide)
  have header : RangeHeader (rangeFunction 0 3 1) {} {} 1 5 ⟨0, 3, 1⟩ :=
    rangeHeader_rangeFunction (by decide)
  obtain ⟨loop, lowered, steps⟩ := lowerRangeLoop_stepsThrough_iff region 6 header
  refine ⟨region, found, loop, lowered, steps.mpr (.inr ⟨?_, ?_⟩)⟩
  · rw [entry]
    rfl
  · decide

/-- `range(2 ** 63 - 2, 2 ** 63 - 1, 2)` has one item, but the value after it does not fit. -/
theorem range_near_maximum :
    ∃ region, findMaximalTypedRegion
        (rangeFunction 9223372036854775806 9223372036854775807 2) = some region ∧
      ∃ loop, lowerRangeLoop {} {} (rangeFunction 9223372036854775806 9223372036854775807 2) region
          1 6 5 ⟨9223372036854775806, 9223372036854775807, 2⟩ = .ok loop ∧
        ¬loop.StepsThrough ⟨9223372036854775806, 9223372036854775807, 2⟩ := by
  obtain ⟨region, found, entry⟩ := Option.map_eq_some_iff.mp
    (show (findMaximalTypedRegion (rangeFunction 9223372036854775806 9223372036854775807 2)).map
      (·.entry) = some 1 by decide)
  have header : RangeHeader (rangeFunction 9223372036854775806 9223372036854775807 2) {} {} 1 5
      ⟨9223372036854775806, 9223372036854775807, 2⟩ := rangeHeader_rangeFunction (by decide)
  obtain ⟨loop, lowered, steps⟩ := lowerRangeLoop_of_flows region 6 header (by rw [entry]; rfl)
  exact ⟨region, found, loop, lowered, fun h ↦ absurd (steps.mp h) (by decide)⟩

end Pon.Codegen
