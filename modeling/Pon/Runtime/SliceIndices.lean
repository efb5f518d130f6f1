import Pon.Codegen.RangeLoop

/-!
# Slice indices

The indices that a slice selects from a sequence, in machine words. The lower and the upper limit of a
bound depend on the sign of the step, and a negative bound counts from the end of the sequence. Python
clamps a bound of any size to the limits. A bound or a step that is not a machine word is refused here,
and every other slice selects what Python selects.
-/

namespace Pon.Slice

open Codegen

def toIsize (value : ℤ) : Option Int64 :=
  if -2 ^ 63 ≤ value ∧ value < 2 ^ 63 then some (Int64.ofInt value) else none

def saturatingAdd (left right : Int64) : Int64 :=
  Int64.ofInt (max (-2 ^ 63) (min (2 ^ 63 - 1) (left.toInt + right.toInt)))

def clamp (value lower upper : Int64) : Int64 :=
  if value < lower then lower else if upper < value then upper else value

theorem toIsize_eq_none {value : ℤ} : toIsize value = none ↔ ¬(-2 ^ 63 ≤ value ∧ value < 2 ^ 63) := by
  by_cases fits : -2 ^ 63 ≤ value ∧ value < 2 ^ 63
  · rw [toIsize, if_pos fits]
    exact iff_of_false (Option.some_ne_none _) (not_not_intro fits)
  · rw [toIsize, if_neg fits]
    exact iff_of_true rfl fits

theorem toInt_toIsize {value : ℤ} {word : Int64} (h : toIsize value = some word) :
    word.toInt = value := by
  rw [toIsize] at h
  split_ifs at h with fits
  obtain rfl := Option.some.inj h
  exact Int64.toInt_ofInt_of_le fits.1 fits.2

theorem toInt_saturatingAdd (left right : Int64) :
    (saturatingAdd left right).toInt = max (-2 ^ 63) (min (2 ^ 63 - 1) (left.toInt + right.toInt)) :=
  Int64.toInt_ofInt_of_le (by omega) (by omega)

theorem toInt_clamp (value lower upper : Int64) :
    (clamp value lower upper).toInt =
      if value.toInt < lower.toInt then lower.toInt
      else if upper.toInt < value.toInt then upper.toInt else value.toInt := by
  simp only [clamp, Int64.lt_iff_toInt_lt]
  split_ifs <;> rfl

/-- A field of a slice. -/
inductive Field where
  | none
  | bool (value : Bool)
  | int (value : ℤ)
  deriving DecidableEq

structure PySlice where
  start : Field
  stop : Field
  step : Field

def Field.indexIsize : Field → Option Int64
  | .none => Option.none
  | .bool value => some (if value then 1 else 0)
  | .int value => toIsize value

def indicesMessage : String :=
  "slice indices must be integers or None or have an __index__ method"

def normalizeBound (value : Field) (len defaultNone lower upper : Int64) : Except String Int64 :=
  match value with
  | .none => .ok (clamp defaultNone lower upper)
  | value =>
    match value.indexIsize with
    | Option.none => .error indicesMessage
    | some index => .ok (clamp (if index < 0 then saturatingAdd index len else index) lower upper)

def normalizeStep (step : Field) : Except String Int64 :=
  match step with
  | .none => .ok 1
  | step =>
    match step.indexIsize with
    | Option.none => .error indicesMessage
    | some index => .ok index

def normalizeIndices (slice : PySlice) (len : Int64) : Except String (Int64 × Int64 × Int64) := do
  let step ← normalizeStep slice.step
  if step = 0 then throw "slice step cannot be zero"
  if step < 0 then
    let start ← normalizeBound slice.start len (len - 1) (-1) (len - 1)
    let stop ← normalizeBound slice.stop len (-1) (-1) (len - 1)
    return (start, stop, step)
  else
    let start ← normalizeBound slice.start len 0 0 len
    let stop ← normalizeBound slice.stop len len 0 len
    return (start, stop, step)

/-- The integer that a field holds. -/
def Field.value : Field → Option ℤ
  | .none => Option.none
  | .bool value => some (if value then 1 else 0)
  | .int value => some value

/-- A bound counted from the end if it is negative, and cut off at the limits. -/
def pythonBound (value : Option ℤ) (length absent lower upper : ℤ) : ℤ :=
  match value with
  | Option.none => absent
  | some value => if value < 0 then max (value + length) lower else min value upper

def PySlice.stepValue (slice : PySlice) : ℤ := slice.step.value.getD 1

/-- Python's `slice.indices(length)`. -/
def PySlice.pythonIndices (slice : PySlice) (length : ℤ) : ℤ × ℤ × ℤ :=
  if slice.stepValue < 0 then
    (pythonBound slice.start.value length (length - 1) (-1) (length - 1),
      pythonBound slice.stop.value length (-1) (-1) (length - 1), slice.stepValue)
  else
    (pythonBound slice.start.value length 0 0 length,
      pythonBound slice.stop.value length length 0 length, slice.stepValue)

/-- The positions that start, stop and step select. -/
def positions (indices : ℤ × ℤ × ℤ) : List ℤ := pythonRange indices.1 indices.2.1 indices.2.2

def toInts (indices : Int64 × Int64 × Int64) : ℤ × ℤ × ℤ :=
  (indices.1.toInt, indices.2.1.toInt, indices.2.2.toInt)

/-- The slice is normalized to indices with the step of Python and the same positions. They are
positions of the sequence, and stepping from one to the next one in machine words meets each of them. -/
def Normalizes (slice : PySlice) (len : Int64) : Prop :=
  ∃ indices, normalizeIndices slice len = .ok indices ∧
    (toInts indices).2.2 = (slice.pythonIndices len.toInt).2.2 ∧
    positions (toInts indices) = positions (slice.pythonIndices len.toInt) ∧
    (∀ position ∈ positions (toInts indices), 0 ≤ position ∧ position < len.toInt) ∧
    ∀ i < (positions (toInts indices)).length,
      some ((· + indices.2.2)^[i] indices.1).toInt = (positions (toInts indices))[i]?

/-- The field is absent or a machine word. -/
def Field.Fits (field : Field) : Prop := ∀ value, field.value = some value → -2 ^ 63 ≤ value ∧ value < 2 ^ 63

def PySlice.Fits (slice : PySlice) : Prop := slice.start.Fits ∧ slice.stop.Fits ∧ slice.step.Fits

theorem Field.indexIsize_of_fits {field : Field} (fits : field.Fits) {value : ℤ}
    (present : field.value = some value) : ∃ word, field.indexIsize = some word ∧ word.toInt = value := by
  cases field with
  | none => exact absurd present.symm (Option.some_ne_none value)
  | bool flag =>
    obtain rfl := Option.some.inj present
    exact ⟨_, rfl, by cases flag <;> rfl⟩
  | int number =>
    obtain rfl := Option.some.inj present
    have word : ∃ word, toIsize number = some word := by
      rw [← Option.isSome_iff_exists, Option.isSome_iff_ne_none, ne_eq, toIsize_eq_none, not_not]
      exact fits number rfl
    obtain ⟨word, found⟩ := word
    exact ⟨word, found, toInt_toIsize found⟩

theorem Field.indexIsize_of_not_fits {field : Field} (large : ¬field.Fits) :
    field ≠ .none ∧ field.indexIsize = Option.none := by
  cases field with
  | none => exact absurd (fun value present ↦ nomatch present) large
  | bool flag =>
    refine absurd (fun value present ↦ ?_) large
    obtain rfl := Option.some.inj present
    cases flag <;> decide
  | int number =>
    refine ⟨nofun, toIsize_eq_none.mpr fun fits ↦ large fun value present ↦ ?_⟩
    obtain rfl := Option.some.inj present
    exact fits

/-- A bound that fits is clamped to the same limits as in Python. The sum with the length saturates for
no negative bound, and the limits are those of a sequence. -/
theorem normalizeBound_of_fits {value : Field} (fits : value.Fits) {len : Int64}
    (nonneg : 0 ≤ len.toInt) (absent lower upper : Int64) (low : lower.toInt ≤ 0)
    (high : len.toInt - 1 ≤ upper.toInt)
    (limits : lower.toInt ≤ upper.toInt)
    (inside : lower.toInt ≤ absent.toInt ∧ absent.toInt ≤ upper.toInt) :
    ∃ index, normalizeBound value len absent lower upper = .ok index ∧
      index.toInt = pythonBound value.value len.toInt absent.toInt lower.toInt upper.toInt := by
  have lengthHigh := len.toInt_lt
  cases present : value.value with
  | none =>
    have isNone : value = .none := by
      cases value with
      | none => rfl
      | bool | int => exact absurd present (Option.some_ne_none _)
    subst isNone
    refine ⟨_, rfl, ?_⟩
    rw [toInt_clamp, if_neg (by omega), if_neg (by omega), pythonBound]
  | some number =>
    obtain ⟨word, found, isNumber⟩ := value.indexIsize_of_fits fits present
    have numberLow := word.le_toInt
    refine ⟨clamp (if word < 0 then saturatingAdd word len else word) lower upper, ?_, ?_⟩
    · cases value with
      | none => exact absurd present.symm (Option.some_ne_none number)
      | bool | int => simp only [normalizeBound, found]
    · rw [toInt_clamp, pythonBound, ← isNumber]
      simp only [Int64.lt_iff_toInt_lt, Int64.toInt_zero]
      by_cases negative : word.toInt < 0
      · rw [if_pos negative, if_pos negative, toInt_saturatingAdd]
        split_ifs <;> omega
      · rw [if_neg negative, if_neg negative]
        split_ifs <;> omega

theorem normalizeBound_of_not_fits {value : Field} (large : ¬value.Fits) (len absent lower upper : Int64) :
    normalizeBound value len absent lower upper = .error indicesMessage := by
  obtain ⟨present, refused⟩ := value.indexIsize_of_not_fits large
  cases value with
  | none => exact absurd rfl present
  | bool | int => simp only [normalizeBound, refused]

theorem normalizeStep_of_fits {step : Field} (fits : step.Fits) :
    ∃ word, normalizeStep step = .ok word ∧ word.toInt = step.value.getD 1 := by
  cases present : step.value with
  | none =>
    cases step with
    | none => exact ⟨1, rfl, rfl⟩
    | bool | int => exact absurd present (Option.some_ne_none _)
  | some number =>
    obtain ⟨word, found, isNumber⟩ := step.indexIsize_of_fits fits present
    refine ⟨word, ?_, isNumber⟩
    cases step with
    | none => exact absurd present.symm (Option.some_ne_none number)
    | bool | int => simp only [normalizeStep, found]

theorem normalizeStep_of_not_fits {step : Field} (large : ¬step.Fits) :
    normalizeStep step = .error indicesMessage := by
  obtain ⟨present, refused⟩ := step.indexIsize_of_not_fits large
  cases step with
  | none => exact absurd rfl present
  | bool | int => simp only [normalizeStep, refused]

variable {slice : PySlice}

theorem normalizeIndices_of_fits (fits : slice.Fits) (nonzero : slice.stepValue ≠ 0) {len : Int64}
    (nonneg : 0 ≤ len.toInt) :
    ∃ indices, normalizeIndices slice len = .ok indices ∧
      toInts indices = slice.pythonIndices len.toInt := by
  obtain ⟨startFits, stopFits, stepFits⟩ := fits
  obtain ⟨step, stepped, isStep⟩ := normalizeStep_of_fits stepFits
  have lengthHigh := len.toInt_lt
  have last : (len - 1).toInt = len.toInt - 1 := by
    rw [Int64.toInt_sub, Int64.toInt_one, RangeIterSpec.bmod_eq_self (by omega) (by omega)]
  have before : (-1 : Int64).toInt = -1 := rfl
  have first : (0 : Int64).toInt = 0 := rfl
  change step.toInt = slice.stepValue at isStep
  have stepNonzero : step ≠ 0 := by
    intro isZero
    rw [isZero, first] at isStep
    exact nonzero isStep.symm
  have sign : step < 0 ↔ slice.stepValue < 0 := by
    rw [Int64.lt_iff_toInt_lt, isStep, first]
  by_cases negative : step < 0
  · obtain ⟨start, started, isStart⟩ := normalizeBound_of_fits startFits nonneg (len - 1) (-1)
      (len - 1) (by omega) (by omega) (by omega) (by omega)
    obtain ⟨stop, stopped, isStop⟩ := normalizeBound_of_fits stopFits nonneg (-1) (-1)
      (len - 1) (by omega) (by omega) (by omega) (by omega)
    refine ⟨(start, stop, step), ?_, ?_⟩
    · simp only [normalizeIndices, stepped, started, stopped, bind, Except.bind, if_neg stepNonzero,
        if_pos negative, pure, Except.pure]
    · rw [PySlice.pythonIndices, if_pos (sign.mp negative), toInts, isStart, isStop, isStep, last, before]
  · obtain ⟨start, started, isStart⟩ := normalizeBound_of_fits startFits nonneg 0 0 len
      (by omega) (by omega) (by omega) (by omega)
    obtain ⟨stop, stopped, isStop⟩ := normalizeBound_of_fits stopFits nonneg len 0 len
      (by omega) (by omega) (by omega) (by omega)
    refine ⟨(start, stop, step), ?_, ?_⟩
    · simp only [normalizeIndices, stepped, started, stopped, bind, Except.bind, if_neg stepNonzero,
        if_neg negative, pure, Except.pure]
    · rw [PySlice.pythonIndices, if_neg (mt sign.mpr negative), toInts, isStart, isStop, isStep, first]

theorem normalizeIndices_of_not_fits (large : ¬slice.Fits) (len : Int64) :
    ∃ message, normalizeIndices slice len = .error message := by
  by_cases stepFits : slice.step.Fits
  · obtain ⟨step, stepped, -⟩ := normalizeStep_of_fits stepFits
    simp only [normalizeIndices, stepped, bind, Except.bind]
    by_cases isZero : step = 0
    · rw [if_pos isZero]
      exact ⟨_, rfl⟩
    rw [if_neg isZero]
    by_cases startFits : slice.start.Fits
    · have stopLarge : ¬slice.stop.Fits := fun fits ↦ large ⟨startFits, fits, stepFits⟩
      simp only [normalizeBound_of_not_fits stopLarge]
      by_cases negative : step < 0
      · rw [if_pos negative]
        cases normalizeBound slice.start len (len - 1) (-1) (len - 1) <;> exact ⟨_, rfl⟩
      · rw [if_neg negative]
        cases normalizeBound slice.start len 0 0 len <;> exact ⟨_, rfl⟩
    · simp only [normalizeBound_of_not_fits startFits]
      by_cases negative : step < 0
      · rw [if_pos negative]
        exact ⟨_, rfl⟩
      · rw [if_neg negative]
        exact ⟨_, rfl⟩
  · rw [normalizeIndices, normalizeStep_of_not_fits stepFits]
    exact ⟨_, rfl⟩

variable {length : ℤ}

theorem pythonBound_mem (value : Option ℤ) {absent lower upper : ℤ}
    (inside : lower ≤ absent ∧ absent ≤ upper) (low : lower ≤ 0) (high : length - 1 ≤ upper) :
    lower ≤ pythonBound value length absent lower upper ∧
      pythonBound value length absent lower upper ≤ upper := by
  cases value with
  | none => exact inside
  | some value =>
    rw [pythonBound]
    split_ifs <;> omega

theorem PySlice.pythonIndices_bounds (slice : PySlice) (nonneg : 0 ≤ length) :
    if slice.stepValue < 0 then
      (slice.pythonIndices length).1 ≤ length - 1 ∧ -1 ≤ (slice.pythonIndices length).2.1
    else
      (0 ≤ (slice.pythonIndices length).1 ∧ (slice.pythonIndices length).1 ≤ length) ∧
        0 ≤ (slice.pythonIndices length).2.1 ∧ (slice.pythonIndices length).2.1 ≤ length := by
  unfold PySlice.pythonIndices
  split_ifs with negative
  · have start := pythonBound_mem slice.start.value
      (show -1 ≤ length - 1 ∧ length - 1 ≤ length - 1 by omega) (by omega) le_rfl
    have stop := pythonBound_mem slice.stop.value
      (show -1 ≤ (-1 : ℤ) ∧ -1 ≤ length - 1 by omega) (by omega) le_rfl
    exact ⟨start.2, stop.1⟩
  · have start := pythonBound_mem slice.start.value (show 0 ≤ (0 : ℤ) ∧ 0 ≤ length by omega)
      le_rfl (sub_le_self length zero_le_one)
    have stop := pythonBound_mem slice.stop.value (show 0 ≤ length ∧ length ≤ length by omega)
      le_rfl (sub_le_self length zero_le_one)
    exact ⟨start, stop⟩

theorem mem_positions_pythonIndices {position : ℤ} (nonneg : 0 ≤ length)
    (nonzero : slice.stepValue ≠ 0) (selected : position ∈ positions (slice.pythonIndices length)) :
    0 ≤ position ∧ position < length := by
  obtain ⟨i, inside, rfl⟩ := List.mem_map.mp selected
  have steps := Int.natCast_nonneg i
  have before := List.mem_range.mp inside
  have bounds := slice.pythonIndices_bounds nonneg
  unfold PySlice.pythonIndices at before bounds ⊢
  by_cases negative : slice.stepValue < 0
  · have shrunk : (i : ℤ) * slice.stepValue ≤ 0 := mul_nonpos_of_nonneg_of_nonpos steps negative.le
    rw [if_pos negative, lt_rangeLength_iff nonzero, beforeStop, if_neg (by omega)] at before
    simp only [if_pos negative] at bounds ⊢
    dsimp only at before
    omega
  · have grown : 0 ≤ (i : ℤ) * slice.stepValue := mul_nonneg steps (not_lt.mp negative)
    rw [if_neg negative, lt_rangeLength_iff nonzero, beforeStop, if_pos (by omega)] at before
    simp only [if_neg negative] at bounds ⊢
    dsimp only at before
    omega

/-- A slice selects what Python selects exactly where its bounds and its step are absent or machine
words. -/
theorem normalizes_iff (slice : PySlice) (nonzero : slice.stepValue ≠ 0) (len : Int64)
    (nonneg : 0 ≤ len.toInt) : Normalizes slice len ↔ slice.Fits := by
  constructor
  · intro agrees
    obtain ⟨indices, normalized, -⟩ := agrees
    by_contra large
    obtain ⟨message, refused⟩ := normalizeIndices_of_not_fits large len
    exact nomatch normalized.symm.trans refused
  · intro fits
    obtain ⟨indices, normalized, same⟩ := normalizeIndices_of_fits fits nonzero nonneg
    have inside : ∀ position ∈ positions (toInts indices), 0 ≤ position ∧ position < len.toInt := by
      rw [same]
      exact fun position ↦ mem_positions_pythonIndices nonneg nonzero
    refine ⟨indices, normalized, by rw [same], by rw [same], inside, fun i bound ↦ ?_⟩
    have stepValue : indices.2.2.toInt = slice.stepValue := by
      have third := congrArg (fun triple ↦ triple.2.2) same
      unfold PySlice.pythonIndices at third
      split_ifs at third <;> exact third
    have stepNonzero : indices.2.2 ≠ 0 := by
      intro isZero
      rw [isZero, Int64.toInt_zero] at stepValue
      exact nonzero stepValue.symm
    rw [positions, pythonRange, List.length_map, List.length_range] at bound
    rw [positions, pythonRange, List.getElem?_map, List.getElem?_range bound, Option.map_some]
    let spec : RangeIterSpec := ⟨indices.1, indices.2.1, indices.2.2⟩
    have item : (spec.next^[i] spec.start).toInt = spec.start.toInt + i * spec.step.toInt :=
      RangeIterSpec.toInt_item stepNonzero bound
    exact congrArg some item

theorem normalizes_iff_reversed :
    Normalizes ⟨.int (-1), .none, .int (-2)⟩ 5 ↔ PySlice.Fits ⟨.int (-1), .none, .int (-2)⟩ :=
  normalizes_iff ⟨.int (-1), .none, .int (-2)⟩ (by decide) 5 (by decide)

/-- A stop above every machine word is refused, and Python stops at the end of the sequence. -/
theorem large_stop_refused :
    normalizeIndices ⟨.none, .int (2 ^ 63), .none⟩ 5 = .error indicesMessage ∧
      PySlice.pythonIndices ⟨.none, .int (2 ^ 63), .none⟩ 5 = (0, 5, 1) ∧
      ¬Normalizes ⟨.none, .int (2 ^ 63), .none⟩ 5 := by
  have refused : normalizeIndices ⟨.none, .int (2 ^ 63), .none⟩ 5 = .error indicesMessage := by decide
  refine ⟨refused, by decide, fun agrees ↦ ?_⟩
  obtain ⟨indices, normalized, -⟩ := agrees
  exact nomatch refused.symm.trans normalized

end Pon.Slice
