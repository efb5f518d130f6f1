import Pon.Runtime.SliceIndices
import Mathlib.Data.List.Sort

/-!
# Slices of lists

Reading, replacing and deleting a slice of a list. The slice is normalized to indices of the list, and
the new contents are worked out on a copy. Indices are machine words: a bound that is none is refused,
and arithmetic that overflows ends the operation, as it does in builds with overflow checks.
-/

namespace Pon.Slice

open Codegen

/-! ## Failures -/

inductive SliceError
  | tooLarge
  | expectedInt
  | zeroStep
  | indexOutOfRange
  | sizeMismatch (given selected : ℕ)
deriving DecidableEq

def SliceError.message : SliceError → String
  | .tooLarge => "sequence is too large for slice indices"
  | .expectedInt => "expected int, got int"
  | .zeroStep => "slice step cannot be zero"
  | .indexOutOfRange => "list index out of range"
  | .sizeMismatch given selected => "attempt to assign sequence of size " ++ toString given ++
      " to extended slice of size " ++ toString selected

/-- An operation raises an error, or panics. -/
inductive Failure
  | raised (error : SliceError)
  | panicked
deriving DecidableEq

/-! ## Normalization -/

/-- The result of arithmetic on machine words. -/
def isize (value : ℤ) : Except Failure ℤ :=
  if -2 ^ 63 ≤ value ∧ value < 2 ^ 63 then .ok value else .error .panicked

def saturating (value : ℤ) : ℤ := max (-2 ^ 63) (min (2 ^ 63 - 1) value)

/-- An integer that is a machine word. -/
def indexValue (value : ℤ) : Except Failure ℤ :=
  if -2 ^ 63 ≤ value ∧ value < 2 ^ 63 then .ok value else .error (.raised .expectedInt)

def normalizeSliceBound (value : Field) (len absent lower upper : ℤ) : Except Failure ℤ :=
  match value.value with
  | none => .ok (max lower (min absent upper))
  | some value => do
      let index ← indexValue value
      let index := if index < 0 then saturating (index + len) else index
      .ok (max lower (min index upper))

structure SliceIndices where
  start : ℤ
  stop : ℤ
  step : ℤ
  len : ℕ
deriving DecidableEq

/-- The number of indices from a start to a stop. -/
def sliceLength (start stop step : ℤ) : Except Failure ℕ :=
  if 0 < step then
    if stop ≤ start then .ok 0
    else do
      let distance ← isize (stop - start)
      let span ← isize (distance - 1)
      let count ← isize (span / step + 1)
      .ok count.toNat
  else if start ≤ stop then .ok 0
  else do
    let distance ← isize (start - stop)
    let span ← isize (distance - 1)
    let negated ← isize (-step)
    let count ← isize (span / negated + 1)
    .ok count.toNat

def normalizeSliceStep (step : Field) : Except Failure ℤ :=
  match step.value with
  | none => .ok 1
  | some value => indexValue value

def normalizeSliceBounds (slice : PySlice) (len step : ℤ) : Except Failure (ℤ × ℤ) :=
  if 0 < step then do
    let start ← normalizeSliceBound slice.start len 0 0 len
    let stop ← normalizeSliceBound slice.stop len len 0 len
    .ok (start, stop)
  else do
    let start ← normalizeSliceBound slice.start len (len - 1) (-1) (len - 1)
    let stop ← normalizeSliceBound slice.stop len (-1) (-1) (len - 1)
    .ok (start, stop)

def normalizeSlice (slice : PySlice) (len : ℕ) : Except Failure SliceIndices :=
  if 2 ^ 63 ≤ (len : ℤ) then .error (.raised .tooLarge)
  else do
    let step ← normalizeSliceStep slice.step
    if step = 0 then .error (.raised .zeroStep)
    else do
      let bounds ← normalizeSliceBounds slice len step
      let count ← sliceLength bounds.1 bounds.2 step
      .ok { start := bounds.1, stop := bounds.2, step, len := count }

/-- The indices one after the other, from a position on. -/
def walk (step : ℤ) : ℕ → ℤ → List ℤ
  | 0, _ => []
  | count + 1, position => position :: walk step count (saturating (position + step))

def SliceIndices.walked (indices : SliceIndices) : List ℤ :=
  walk indices.step indices.len indices.start

/-! ## Operations -/

variable {α : Type}

/-- `list_item_object`: a negative index counts from the end. -/
def listItem (items : List α) (index : ℤ) : Except Failure α :=
  let adjusted := if index < 0 then saturating (index + items.length) else index
  if adjusted < 0 then .error (.raised .indexOutOfRange)
  else
    match items[adjusted.toNat]? with
    | some item => .ok item
    | none => .error (.raised .indexOutOfRange)

/-- `sequence_slice_raw` on a list. -/
def sliceList (items : List α) (slice : PySlice) : Except Failure (List α) := do
  let indices ← normalizeSlice slice items.length
  indices.walked.mapM (listItem items)

/-- `Vec::remove`; a negative index is cast to one that is out of range. -/
def removeAt (items : List α) (position : ℤ) : Except Failure (List α) :=
  if 0 ≤ position ∧ position < items.length then .ok (items.eraseIdx position.toNat)
  else .error .panicked

/-- `Vec::splice` over a range. -/
def splice (items : List α) (start stop : ℤ) (replacement : List α) : Except Failure (List α) :=
  if 0 ≤ start ∧ start ≤ stop ∧ stop ≤ items.length then
    .ok (items.take start.toNat ++ replacement ++ items.drop stop.toNat)
  else .error .panicked

/-- Assigns items to positions one by one. -/
def assignAll : List (ℤ × α) → List α → Except Failure (List α)
  | [], items => .ok items
  | (position, item) :: rest, items =>
      if 0 ≤ position ∧ position < items.length then assignAll rest (items.set position.toNat item)
      else .error .panicked

def deletedContents (items : List α) (slice : PySlice) : Except Failure (List α) := do
  let indices ← normalizeSlice slice items.length
  (indices.walked.insertionSort (· ≥ ·)).foldlM removeAt items

def assignedContents (items : List α) (slice : PySlice) (replacement : List α) :
    Except Failure (List α) := do
  let indices ← normalizeSlice slice items.length
  if indices.step = 1 then splice items indices.start indices.stop replacement
  else if replacement.length ≠ indices.len then
    .error (.raised (.sizeMismatch replacement.length indices.len))
  else assignAll (indices.walked.zip replacement) items

/-- `list_assign_slice_raw`: what it returns and the list afterwards. Without a value the slice is
deleted. -/
def listAssignSlice (items : List α) (slice : PySlice) (value : Option (List α)) :
    Except Failure Unit × List α :=
  let contents :=
    match value with
    | none => deletedContents items slice
    | some replacement => assignedContents items slice replacement
  match contents with
  | .ok contents => (.ok (), contents)
  | .error failure => (.error failure, items)

/-! ## Python -/

/-- The positions that a slice selects in a list. -/
def PySlice.selected (slice : PySlice) (length : ℕ) : List ℤ :=
  positions (slice.pythonIndices length)

/-- `l[s]`. -/
def pythonSlice (items : List α) (slice : PySlice) : List α :=
  (slice.selected items.length).filterMap fun position ↦ items[position.toNat]?

/-- `del l[s]`: the items at the other positions. -/
def pythonDelete (items : List α) (slice : PySlice) : List α :=
  (items.zipIdx.filter fun entry ↦ (entry.2 : ℤ) ∉ slice.selected items.length).map Prod.fst

/-- `l[s] = v`. A slice with the step 1 is replaced as a whole, at its start if it stops before that. -/
def pythonAssign (items : List α) (slice : PySlice) (replacement : List α) :
    Except SliceError (List α) :=
  let indices := slice.pythonIndices items.length
  let selected := slice.selected items.length
  if slice.stepValue = 1 then
    .ok (items.take indices.1.toNat ++ replacement ++ items.drop (max indices.1 indices.2.1).toNat)
  else if replacement.length ≠ selected.length then
    .error (.sizeMismatch replacement.length selected.length)
  else .ok (items.mapIdx fun i item ↦ ((selected.zip replacement).lookup (i : ℤ)).getD item)

/-! ## Conditions -/

/-- The bounds and the step are absent or machine words, and the step can be negated where a slice is
walked backwards. -/
structure PySlice.Handled (slice : PySlice) (length : ℕ) : Prop where
  word : (length : ℤ) < 2 ^ 63
  fits : slice.Fits
  negatable : slice.stepValue = -2 ^ 63 →
    (slice.pythonIndices length).1 ≤ (slice.pythonIndices length).2.1

/-- A slice with the step 1 that stops before it starts. -/
def PySlice.Crossed (slice : PySlice) (length : ℕ) : Prop :=
  slice.stepValue = 1 ∧ (slice.pythonIndices length).2.1 < (slice.pythonIndices length).1

/-- The outcome of an assignment is that of Python. -/
def Agrees (outcome : Except Failure Unit × List α) (items : List α)
    (expected : Except SliceError (List α)) : Prop :=
  match expected with
  | .ok contents => outcome = (.ok (), contents)
  | .error error => outcome = (.error (.raised error), items)

/-! ## Machine words -/

variable {value start stop step position : ℤ} {field : Field} {slice : PySlice} {length : ℕ}
  {items : List α} {removed : List ℤ}

theorem isize_of_fits (low : -2 ^ 63 ≤ value) (high : value < 2 ^ 63) :
    isize value = .ok value := if_pos ⟨low, high⟩

theorem saturating_of_fits (low : -2 ^ 63 ≤ value) (high : value < 2 ^ 63) :
    saturating value = value := by
  rw [saturating]
  omega

theorem indexValue_of_fits (fits : -2 ^ 63 ≤ value ∧ value < 2 ^ 63) :
    indexValue value = .ok value := if_pos fits

/-! ## Bounds -/

theorem normalizeSliceBound_eq_python (fits : field.Fits) {len : ℤ} (nonneg : 0 ≤ len)
    (short : len < 2 ^ 63) {absent lower upper : ℤ} (low : lower ≤ 0) (high : len - 1 ≤ upper)
    (limits : lower ≤ upper) (inside : lower ≤ absent ∧ absent ≤ upper) :
    normalizeSliceBound field len absent lower upper =
      .ok (pythonBound field.value len absent lower upper) := by
  unfold normalizeSliceBound
  cases present : field.value with
  | none =>
    refine congrArg Except.ok ?_
    dsimp only [pythonBound]
    omega
  | some value =>
    have word := fits value present
    dsimp only
    rw [indexValue_of_fits word]
    refine congrArg Except.ok ?_
    dsimp only [pythonBound]
    by_cases negative : value < 0
    · rw [if_pos negative, if_pos negative, saturating_of_fits (by omega) (by omega)]
      omega
    · rw [if_neg negative, if_neg negative]
      omega

theorem normalizeSliceBound_of_not_fits (large : ¬field.Fits) (len absent lower upper : ℤ) :
    normalizeSliceBound field len absent lower upper = .error (.raised .expectedInt) := by
  unfold normalizeSliceBound
  cases present : field.value with
  | none => exact absurd (fun value found ↦ nomatch present.symm.trans found) large
  | some value =>
    have refused : indexValue value = .error (.raised .expectedInt) := by
      refine if_neg fun word ↦ large fun other found ↦ ?_
      obtain rfl := Option.some.inj (present.symm.trans found)
      exact word
    dsimp only
    rw [refused]
    rfl

theorem normalizeSliceStep_of_fits (fits : slice.step.Fits) :
    normalizeSliceStep slice.step = .ok slice.stepValue := by
  unfold normalizeSliceStep PySlice.stepValue
  cases present : slice.step.value with
  | none => rfl
  | some value => exact indexValue_of_fits (fits value present)

theorem normalizeSliceStep_of_not_fits (large : ¬field.Fits) :
    normalizeSliceStep field = .error (.raised .expectedInt) := by
  unfold normalizeSliceStep
  cases present : field.value with
  | none => exact absurd (fun value found ↦ nomatch present.symm.trans found) large
  | some value =>
    refine if_neg fun word ↦ large fun other found ↦ ?_
    obtain rfl := Option.some.inj (present.symm.trans found)
    exact word

/-! ## Lengths -/

theorem rangeLength_of_positive (positive : 0 < step) : rangeLength start stop step =
    if stop ≤ start then 0 else ((stop - start - 1) / step + 1).toNat := by
  rw [rangeLength, if_pos positive]
  split_ifs with empty
  · exact Int.toNat_of_nonpos (Int.lt_add_one_iff.mp (Int.ediv_lt_of_lt_mul positive (by omega)))
  · rw [← Int.add_mul_ediv_right _ 1 positive.ne', one_mul]
    congr 2
    omega

theorem rangeLength_of_negative (negative : step < 0) : rangeLength start stop step =
    if start ≤ stop then 0 else ((start - stop - 1) / (-step) + 1).toNat := by
  have positive : 0 < -step := Int.neg_pos_of_neg negative
  rw [rangeLength, if_neg negative.not_gt]
  split_ifs with empty
  · exact Int.toNat_of_nonpos (Int.lt_add_one_iff.mp (Int.ediv_lt_of_lt_mul positive (by omega)))
  · rw [← Int.add_mul_ediv_right _ 1 positive.ne', one_mul]
    congr 2
    omega

theorem sliceLength_of_positive (positive : 0 < step) (low : 0 ≤ start) (high : stop < 2 ^ 63) :
    sliceLength start stop step = .ok (rangeLength start stop step) := by
  rw [sliceLength, if_pos positive, rangeLength_of_positive positive]
  split_ifs with empty
  · rfl
  · have nonneg : 0 ≤ (stop - start - 1) / step := Int.ediv_nonneg (by omega) positive.le
    have small : (stop - start - 1) / step ≤ stop - start - 1 := Int.ediv_le_self _ (by omega)
    rw [isize_of_fits (by omega) (by omega)]
    dsimp only [bind, Except.bind]
    rw [isize_of_fits (by omega) (by omega)]
    dsimp only
    rw [isize_of_fits (by omega) (by omega)]

theorem sliceLength_of_negative (negative : step < 0) (low : -1 ≤ stop) (high : start < 2 ^ 63 - 1)
    (negatable : -2 ^ 63 < step ∨ start ≤ stop) :
    sliceLength start stop step = .ok (rangeLength start stop step) := by
  rw [sliceLength, if_neg negative.not_gt, rangeLength_of_negative negative]
  split_ifs with empty
  · rfl
  · have nonneg : 0 ≤ (start - stop - 1) / (-step) := Int.ediv_nonneg (by omega) (by omega)
    have small : (start - stop - 1) / (-step) ≤ start - stop - 1 := Int.ediv_le_self _ (by omega)
    have above : -2 ^ 63 < step := negatable.resolve_right empty
    rw [isize_of_fits (by omega) (by omega)]
    dsimp only [bind, Except.bind]
    rw [isize_of_fits (by omega) (by omega)]
    dsimp only
    rw [isize_of_fits (by omega) (by omega)]
    dsimp only
    rw [isize_of_fits (by omega) (by omega)]

/-- The step that cannot be negated ends the operation. -/
theorem sliceLength_of_minimum (low : -1 ≤ stop) (high : start < 2 ^ 63 - 1)
    (descends : stop < start) : sliceLength start stop (-2 ^ 63) = .error .panicked := by
  rw [sliceLength, if_neg (by decide), if_neg (by omega), isize_of_fits (by omega) (by omega)]
  dsimp only [bind, Except.bind]
  rw [isize_of_fits (by omega) (by omega)]
  rfl

/-! ## Normalization to Python's indices -/

theorem PySlice.step_pythonIndices (slice : PySlice) (length : ℤ) :
    (slice.pythonIndices length).2.2 = slice.stepValue := by
  unfold PySlice.pythonIndices
  split_ifs <;> rfl

theorem normalizeSliceBounds_of_fits (start : slice.start.Fits) (stop : slice.stop.Fits)
    (nonzero : slice.stepValue ≠ 0) {len : ℤ} (nonneg : 0 ≤ len) (short : len < 2 ^ 63) :
    normalizeSliceBounds slice len slice.stepValue =
      .ok ((slice.pythonIndices len).1, (slice.pythonIndices len).2.1) := by
  unfold normalizeSliceBounds PySlice.pythonIndices
  by_cases positive : 0 < slice.stepValue
  · rw [if_pos positive, if_neg positive.not_gt,
      normalizeSliceBound_eq_python start nonneg short (by omega) (by omega) (by omega) (by omega),
      normalizeSliceBound_eq_python stop nonneg short (by omega) (by omega) (by omega) (by omega)]
    rfl
  · have negative : slice.stepValue < 0 := by omega
    rw [if_neg positive, if_pos negative,
      normalizeSliceBound_eq_python start nonneg short (by omega) (by omega) (by omega) (by omega),
      normalizeSliceBound_eq_python stop nonneg short (by omega) (by omega) (by omega) (by omega)]
    rfl

theorem normalizeSliceBound_cases (field : Field) (len absent lower upper : ℤ) :
    (∃ bound, normalizeSliceBound field len absent lower upper = .ok bound) ∨
      normalizeSliceBound field len absent lower upper = .error (.raised .expectedInt) := by
  unfold normalizeSliceBound
  cases field.value with
  | none => exact Or.inl ⟨_, rfl⟩
  | some value =>
    dsimp only
    unfold indexValue
    split_ifs
    · exact Or.inl ⟨_, rfl⟩
    · exact Or.inr rfl

theorem normalizeSliceBounds_of_not_fits (large : ¬(slice.start.Fits ∧ slice.stop.Fits))
    (len step : ℤ) :
    normalizeSliceBounds slice len step = .error (.raised .expectedInt) := by
  have sign (absent lower upper other absent' lower' upper' : ℤ) :
      (do
        let start ← normalizeSliceBound slice.start len absent lower upper
        let stop ← normalizeSliceBound slice.stop other absent' lower' upper'
        Except.ok (start, stop)) = Except.error (ε := Failure) (.raised .expectedInt) := by
    by_cases start : slice.start.Fits
    · rw [normalizeSliceBound_of_not_fits fun stop ↦ large ⟨start, stop⟩]
      obtain ⟨bound, found⟩ | refused := normalizeSliceBound_cases slice.start len absent lower upper
      · rw [found]
        rfl
      · rw [refused]
        rfl
    · rw [normalizeSliceBound_of_not_fits start]
      rfl
  unfold normalizeSliceBounds
  split_ifs
  · exact sign ..
  · exact sign ..

/-- The indices are those of Python, and as many as Python selects. -/
theorem normalizeSlice_of_handled (nonzero : slice.stepValue ≠ 0) (handled : slice.Handled length) :
    normalizeSlice slice length =
      .ok { start := (slice.pythonIndices length).1, stop := (slice.pythonIndices length).2.1,
            step := slice.stepValue, len := (slice.selected length).length } := by
  obtain ⟨word, ⟨start, stop, step⟩, negatable⟩ := handled
  have bounds := slice.pythonIndices_bounds (Int.natCast_nonneg length)
  have count : sliceLength (slice.pythonIndices length).1 (slice.pythonIndices length).2.1
      slice.stepValue = .ok (slice.selected length).length := by
    rw [PySlice.selected, positions, pythonRange, List.length_map, List.length_range,
      PySlice.step_pythonIndices]
    by_cases negative : slice.stepValue < 0
    · rw [if_pos negative] at bounds
      have low : -2 ^ 63 ≤ slice.stepValue := by
        unfold PySlice.stepValue
        cases present : slice.step.value with
        | none => decide
        | some value => exact (step value present).1
      refine sliceLength_of_negative negative bounds.2 (by omega) ?_
      exact low.lt_or_eq.imp_right fun minimum ↦ negatable minimum.symm
    · rw [if_neg negative] at bounds
      exact sliceLength_of_positive (by omega) bounds.1.1 (by omega)
  rw [normalizeSlice, if_neg word.not_ge, normalizeSliceStep_of_fits step]
  dsimp only [bind, Except.bind]
  rw [if_neg nonzero, normalizeSliceBounds_of_fits start stop nonzero (Int.natCast_nonneg length) word]
  dsimp only
  rw [count]

/-- Any other slice is refused, and for no mismatch of sizes. -/
theorem normalizeSlice_of_not_handled (nonzero : slice.stepValue ≠ 0)
    (unhandled : ¬slice.Handled length) :
    ∃ failure, normalizeSlice slice length = .error failure ∧
      ∀ given selected, failure ≠ .raised (.sizeMismatch given selected) := by
  by_cases word : (length : ℤ) < 2 ^ 63
  · rw [normalizeSlice, if_neg word.not_ge]
    by_cases step : slice.step.Fits
    · rw [normalizeSliceStep_of_fits step]
      dsimp only [bind, Except.bind]
      rw [if_neg nonzero]
      by_cases fits : slice.start.Fits ∧ slice.stop.Fits
      · have minimum : slice.stepValue = -2 ^ 63 ∧
            (slice.pythonIndices length).2.1 < (slice.pythonIndices length).1 := by
          by_contra negatable
          exact unhandled ⟨word, ⟨fits.1, fits.2, step⟩, fun least ↦
            not_lt.mp fun descends ↦ negatable ⟨least, descends⟩⟩
        have bounds := slice.pythonIndices_bounds (Int.natCast_nonneg length)
        rw [if_pos (by omega)] at bounds
        rw [normalizeSliceBounds_of_fits fits.1 fits.2 nonzero (Int.natCast_nonneg length) word]
        dsimp only
        rw [minimum.1, sliceLength_of_minimum bounds.2 (by omega) minimum.2]
        exact ⟨_, rfl, fun given selected ↦ Failure.noConfusion⟩
      · rw [normalizeSliceBounds_of_not_fits fits]
        exact ⟨_, rfl, fun given selected same ↦ nomatch same⟩
    · rw [normalizeSliceStep_of_not_fits step]
      exact ⟨_, rfl, fun given selected same ↦ nomatch same⟩
  · rw [normalizeSlice, if_pos (not_lt.mp word)]
    exact ⟨_, rfl, fun given selected same ↦ nomatch same⟩

/-! ## Walking a slice -/

theorem walk_eq_map {count : ℕ}
    (fits : ∀ i < count, -2 ^ 63 ≤ position + i * step ∧ position + i * step < 2 ^ 63) :
    walk step count position = (List.range count).map fun i : ℕ ↦ position + i * step := by
  induction count generalizing position with
  | zero => rfl
  | succ count ih =>
    have first : position + (0 : ℕ) * step = position := by simp
    rw [walk, List.range_succ_eq_map, List.map_cons, List.map_map, first]
    congr 1
    cases count with
    | zero => rfl
    | succ count =>
      have second := fits 1 (Nat.succ_lt_succ (Nat.succ_pos count))
      rw [Nat.cast_one, one_mul] at second
      have shift (i : ℕ) : position + step + i * step = position + (i + 1 : ℕ) * step := by
        push_cast
        ring
      rw [saturating_of_fits second.1 second.2, ih]
      · exact List.map_congr_left fun i _ ↦ shift i
      · intro i inside
        rw [shift]
        exact fits (i + 1) (Nat.succ_lt_succ inside)

section

variable (nonzero : slice.stepValue ≠ 0)
include nonzero

theorem PySlice.mem_selected
    (selected : position ∈ slice.selected length) : 0 ≤ position ∧ position < length :=
  mem_positions_pythonIndices (Int.natCast_nonneg length) nonzero selected

theorem PySlice.nodup_selected (length : ℕ) :
    (slice.selected length).Nodup := by
  refine (List.nodup_map_iff_inj_on List.nodup_range).mpr fun i _ j _ same ↦ ?_
  rw [PySlice.step_pythonIndices] at same
  exact Int.ofNat.inj (mul_right_cancel₀ nonzero (add_left_cancel same))

/-- Walking from the start in machine words meets the positions that Python selects. -/
theorem walked_of_handled (handled : slice.Handled length)
    {indices : SliceIndices} (normalized : normalizeSlice slice length = .ok indices) :
    indices.walked = slice.selected length := by
  rw [normalizeSlice_of_handled nonzero handled] at normalized
  obtain rfl := Except.ok.inj normalized
  have word := handled.word
  have range : slice.selected length = (List.range (slice.selected length).length).map fun i : ℕ ↦
      (slice.pythonIndices length).1 + i * slice.stepValue := by
    rw [PySlice.selected, positions, pythonRange, List.length_map, List.length_range,
      PySlice.step_pythonIndices]
  have inside (i : ℕ) (bound : i < (slice.selected length).length) :
      -2 ^ 63 ≤ (slice.pythonIndices length).1 + i * slice.stepValue ∧
        (slice.pythonIndices length).1 + i * slice.stepValue < 2 ^ 63 := by
    have selected : (slice.pythonIndices length).1 + i * slice.stepValue ∈ slice.selected length := by
      rw [range]
      exact List.mem_map_of_mem (List.mem_range.mpr bound)
    have bounds := PySlice.mem_selected nonzero selected
    omega
  rw [SliceIndices.walked, walk_eq_map inside, ← range]

end

/-! ## Reading -/

theorem listItem_of_inside (inside : 0 ≤ position ∧ position < items.length) :
    ∃ item, items[position.toNat]? = some item ∧ listItem items position = .ok item := by
  have bound : position.toNat < items.length := by omega
  refine ⟨items[position.toNat], List.getElem?_eq_getElem bound, ?_⟩
  unfold listItem
  rw [if_neg inside.1.not_gt]
  dsimp only
  rw [if_neg inside.1.not_gt, List.getElem?_eq_getElem bound]

theorem mapM_listItem {selected : List ℤ}
    (inside : ∀ position ∈ selected, 0 ≤ position ∧ position < items.length) :
    selected.mapM (listItem items) =
      .ok (selected.filterMap fun position ↦ items[position.toNat]?) := by
  induction selected with
  | nil => rfl
  | cons position selected ih =>
    obtain ⟨item, found, read⟩ := listItem_of_inside (inside position List.mem_cons_self)
    have rest := ih fun other member ↦ inside other (List.mem_cons_of_mem _ member)
    rw [List.mapM_cons, read, rest, List.filterMap_cons, found]
    rfl

/-! ## Deleting -/

/-- The items at the positions that are not to be removed. -/
def kept (items : List α) (removed : List ℤ) : List α :=
  (items.zipIdx.filter fun entry ↦ (entry.2 : ℤ) ∉ removed).map Prod.fst

theorem filter_zipIdx_of_before {start : ℕ} (before : ∀ position ∈ removed, position < start) :
    ((items.zipIdx start).filter fun entry ↦ (entry.2 : ℤ) ∉ removed) = items.zipIdx start := by
  refine List.filter_eq_self.mpr fun entry member ↦ decide_eq_true fun present ↦ ?_
  have low := List.le_snd_of_mem_zipIdx member
  have high := before _ present
  omega

/-- The last position is removed first. -/
theorem kept_cons (inside : 0 ≤ position ∧ position < items.length)
    (before : ∀ other ∈ removed, other < position) :
    kept items (position :: removed) = kept (items.eraseIdx position.toNat) removed := by
  obtain ⟨front, item, back, rfl, split⟩ : ∃ front item back,
      items = front ++ item :: back ∧ front.length = position.toNat := by
    have bound : position.toNat < items.length := by omega
    refine ⟨items.take position.toNat, items[position.toNat], items.drop (position.toNat + 1), ?_, ?_⟩
    · rw [List.getElem_cons_drop, List.take_append_drop]
    · rw [List.length_take, min_eq_left bound.le]
  have isPosition : (front.length : ℤ) = position := by omega
  have beforeBack : ∀ other ∈ position :: removed, other < (front.length + 1 : ℕ) := by
    intro other member
    obtain rfl | member := List.mem_cons.mp member
    · omega
    · have := before other member
      omega
  have sameFront : (front.zipIdx.filter fun entry ↦ (entry.2 : ℤ) ∉ position :: removed) =
      front.zipIdx.filter fun entry ↦ (entry.2 : ℤ) ∉ removed := by
    refine List.filter_congr fun entry member ↦ ?_
    have high := List.snd_lt_of_mem_zipIdx member
    refine decide_eq_decide.mpr (not_congr ⟨fun present ↦ ?_, List.mem_cons_of_mem _⟩)
    refine (List.mem_cons.mp present).resolve_left fun same ↦ ?_
    omega
  have backOf : ((back.zipIdx front.length).filter fun entry ↦ (entry.2 : ℤ) ∉ removed) =
      back.zipIdx front.length := by
    refine filter_zipIdx_of_before fun other member ↦ ?_
    have := before other member
    omega
  have dropped : ¬decide ((front.length : ℤ) ∉ position :: removed) = true := by
    rw [isPosition, decide_eq_true_eq]
    exact not_not_intro List.mem_cons_self
  rw [← split, List.eraseIdx_append_of_length_le le_rfl, Nat.sub_self, List.eraseIdx_cons_zero]
  unfold kept
  rw [List.zipIdx_append, List.zipIdx_append, List.filter_append, List.filter_append, sameFront,
    Nat.zero_add, List.zipIdx_cons, List.filter_cons, if_neg dropped,
    filter_zipIdx_of_before beforeBack, backOf]
  simp only [List.map_append, List.zipIdx_map_fst]

theorem foldlM_removeAt (descending : removed.Pairwise (· > ·))
    (inside : ∀ position ∈ removed, 0 ≤ position ∧ position < items.length) :
    removed.foldlM removeAt items = .ok (kept items removed) := by
  induction removed generalizing items with
  | nil =>
    have all : (items.zipIdx.filter fun entry ↦ (entry.2 : ℤ) ∉ ([] : List ℤ)) = items.zipIdx :=
      filter_zipIdx_of_before fun position member ↦ nomatch member
    rw [kept, all, List.zipIdx_map_fst]
    rfl
  | cons position removed ih =>
    obtain ⟨before, descending⟩ := List.pairwise_cons.mp descending
    have here := inside position List.mem_cons_self
    have rest : ∀ other ∈ removed, 0 ≤ other ∧ other < (items.eraseIdx position.toNat).length := by
      intro other member
      have bound := inside other (List.mem_cons_of_mem _ member)
      have low := before other member
      rw [List.length_eraseIdx_of_lt (by omega)]
      omega
    rw [List.foldlM_cons, removeAt, if_pos here, kept_cons here before]
    exact ih descending rest

/-! ## Assigning -/

theorem assignAll_eq_mapIdx {entries : List (ℤ × α)}
    (inside : ∀ position ∈ entries.map Prod.fst, 0 ≤ position ∧ position < items.length)
    (distinct : (entries.map Prod.fst).Nodup) :
    assignAll entries items = .ok (items.mapIdx fun i item ↦ (entries.lookup (i : ℤ)).getD item) := by
  induction entries generalizing items with
  | nil =>
    refine congrArg Except.ok (List.ext_getElem? fun i ↦ ?_)
    simp
  | cons entry entries ih =>
    obtain ⟨position, value⟩ := entry
    rw [List.map_cons, List.nodup_cons] at distinct
    have here := inside position List.mem_cons_self
    have rest : ∀ other ∈ entries.map Prod.fst, 0 ≤ other ∧
        other < (items.set position.toNat value).length := by
      intro other member
      rw [List.length_set]
      exact inside other (List.mem_cons_of_mem _ member)
    rw [assignAll, if_pos here, ih rest distinct.2]
    refine congrArg Except.ok (List.ext_getElem? fun i ↦ ?_)
    rw [List.getElem?_mapIdx, List.getElem?_mapIdx]
    by_cases same : i = position.toNat
    · have isPosition : (i : ℤ) = position := by omega
      have absent : entries.lookup position = none := by
        refine List.lookup_eq_none_iff.mpr fun entry member ↦ bne_iff_ne.mpr fun isKey ↦ ?_
        exact distinct.1 (List.mem_map.mpr ⟨entry, member, isKey.symm⟩)
      have bound : i < items.length := by omega
      rw [isPosition, absent, List.lookup_cons_self, same, List.getElem?_set_self (same ▸ bound),
        List.getElem?_eq_getElem (same ▸ bound)]
      rfl
    · have other : (i : ℤ) ≠ position := by omega
      rw [List.getElem?_set_ne (Ne.symm same), List.lookup_cons, beq_false_of_ne other]

/-! ## Operations -/

section

variable (nonzero : slice.stepValue ≠ 0) (handled : slice.Handled items.length)
include nonzero handled

theorem sliceList_of_handled :
    sliceList items slice = .ok (pythonSlice items slice) := by
  have normalized := normalizeSlice_of_handled nonzero handled
  unfold sliceList
  rw [normalized]
  dsimp only [bind, Except.bind]
  rw [walked_of_handled nonzero handled normalized]
  exact mapM_listItem fun position ↦ PySlice.mem_selected nonzero

theorem deletedContents_of_handled :
    deletedContents items slice = .ok (pythonDelete items slice) := by
  have normalized := normalizeSlice_of_handled nonzero handled
  have sorted := List.perm_insertionSort (· ≥ ·) (slice.selected items.length)
  have descending : ((slice.selected items.length).insertionSort (· ≥ ·)).Pairwise (· > ·) := by
    have weak := List.pairwise_insertionSort (· ≥ ·) (slice.selected items.length)
    have distinct : ((slice.selected items.length).insertionSort (· ≥ ·)).Nodup :=
      sorted.nodup_iff.mpr (PySlice.nodup_selected nonzero items.length)
    exact (weak.and distinct).imp fun entry ↦ lt_of_le_of_ne entry.1 entry.2.symm
  have contents : kept items ((slice.selected items.length).insertionSort (· ≥ ·)) =
      pythonDelete items slice := by
    unfold kept pythonDelete
    simp only [sorted.mem_iff]
  unfold deletedContents
  rw [normalized]
  dsimp only [bind, Except.bind]
  rw [walked_of_handled nonzero handled normalized, ← contents]
  exact foldlM_removeAt descending fun position member ↦
    PySlice.mem_selected nonzero (sorted.mem_iff.mp member)

theorem assignedContents_of_handled (uncrossed : ¬slice.Crossed items.length)
    (replacement : List α) :
    assignedContents items slice replacement =
      (pythonAssign items slice replacement).mapError .raised := by
  have normalized := normalizeSlice_of_handled nonzero handled
  unfold assignedContents
  rw [normalized]
  dsimp only [bind, Except.bind]
  rw [walked_of_handled nonzero handled normalized]
  unfold pythonAssign
  dsimp only
  by_cases contiguous : slice.stepValue = 1
  · have bounds := slice.pythonIndices_bounds (Int.natCast_nonneg items.length)
    have ordered := not_lt.mp fun crossed ↦ uncrossed ⟨contiguous, crossed⟩
    rw [if_neg (by omega)] at bounds
    rw [if_pos contiguous, if_pos contiguous, splice, if_pos ⟨bounds.1.1, ordered, bounds.2.2⟩,
      max_eq_right ordered]
    rfl
  · rw [if_neg contiguous, if_neg contiguous]
    by_cases sizes : replacement.length = (slice.selected items.length).length
    · have keys : ((slice.selected items.length).zip replacement).map Prod.fst =
          slice.selected items.length := List.map_fst_zip sizes.ge
      rw [if_neg (not_not_intro sizes), if_neg (not_not_intro sizes), assignAll_eq_mapIdx]
      · rfl
      · rw [keys]
        exact fun position ↦ PySlice.mem_selected nonzero
      · rw [keys]
        exact PySlice.nodup_selected nonzero items.length
    · rw [if_pos sizes, if_pos sizes]
      rfl

end

/-- The range of a step-1 assignment that stops before it starts is none of the list. -/
theorem assignedContents_of_crossed (handled : slice.Handled items.length)
    (crossed : slice.Crossed items.length) (replacement : List α) :
    assignedContents items slice replacement = .error .panicked := by
  have nonzero : slice.stepValue ≠ 0 := by
    rw [crossed.1]
    exact one_ne_zero
  unfold assignedContents
  rw [normalizeSlice_of_handled nonzero handled]
  dsimp only [bind, Except.bind]
  rw [if_pos crossed.1, splice, if_neg fun range ↦ range.2.1.not_gt crossed.2]

theorem assignedContents_of_not_handled (nonzero : slice.stepValue ≠ 0)
    (unhandled : ¬slice.Handled items.length) (replacement : List α) :
    ∃ failure, assignedContents items slice replacement = .error failure ∧
      ∀ given selected, failure ≠ .raised (.sizeMismatch given selected) := by
  obtain ⟨failure, refused, other⟩ := normalizeSlice_of_not_handled nonzero unhandled
  refine ⟨failure, ?_, other⟩
  unfold assignedContents
  rw [refused]
  rfl

theorem listAssignSlice_snd_of_error {value : Option (List α)} {failure : Failure}
    (failed : (listAssignSlice items slice value).1 = .error failure) :
    (listAssignSlice items slice value).2 = items := by
  unfold listAssignSlice at failed ⊢
  dsimp only at failed ⊢
  split at failed
  · exact nomatch failed
  · rfl

/-- An assignment that fails for anything but its size does not agree with Python. -/
theorem not_agrees_of_refused {replacement : List α} {failure : Failure}
    (refused : assignedContents items slice replacement = .error failure)
    (other : ∀ given selected, failure ≠ .raised (.sizeMismatch given selected)) :
    ¬Agrees (listAssignSlice items slice (some replacement)) items
      (pythonAssign items slice replacement) := by
  intro agrees
  unfold listAssignSlice pythonAssign at agrees
  dsimp only at agrees
  rw [refused] at agrees
  unfold Agrees at agrees
  split_ifs at agrees
  · exact nomatch congrArg Prod.fst agrees
  · exact other _ _ (Except.error.inj (congrArg Prod.fst agrees))
  · exact nomatch congrArg Prod.fst agrees

/-- A list slice is read, replaced and deleted as in Python exactly where its bounds and its step are
machine words, the step can be negated if the slice is walked backwards, and, to replace it with the
step 1, it does not stop before it starts. An operation that fails leaves the list as it was. -/
theorem listSlice_iff (items : List α) (slice : PySlice) (nonzero : slice.stepValue ≠ 0) :
    (sliceList items slice = .ok (pythonSlice items slice) ↔ slice.Handled items.length) ∧
      (listAssignSlice items slice none = (.ok (), pythonDelete items slice) ↔
        slice.Handled items.length) ∧
      (∀ replacement,
        Agrees (listAssignSlice items slice (some replacement)) items
            (pythonAssign items slice replacement) ↔
          slice.Handled items.length ∧ ¬slice.Crossed items.length) ∧
      ∀ value failure, (listAssignSlice items slice value).1 = .error failure →
        (listAssignSlice items slice value).2 = items := by
  refine ⟨⟨fun read ↦ ?_, sliceList_of_handled nonzero⟩, ⟨fun deleted ↦ ?_, fun handled ↦ ?_⟩,
    fun replacement ↦ ⟨fun agrees ↦ ?_, fun condition ↦ ?_⟩,
    fun value failure ↦ listAssignSlice_snd_of_error⟩
  · by_contra unhandled
    obtain ⟨failure, refused, -⟩ := normalizeSlice_of_not_handled nonzero unhandled
    unfold sliceList at read
    rw [refused] at read
    exact nomatch read
  · by_contra unhandled
    obtain ⟨failure, refused, -⟩ := normalizeSlice_of_not_handled nonzero unhandled
    unfold listAssignSlice deletedContents at deleted
    rw [refused] at deleted
    exact nomatch congrArg Prod.fst deleted
  · unfold listAssignSlice
    dsimp only
    rw [deletedContents_of_handled nonzero handled]
  · by_cases handled : slice.Handled items.length
    · refine ⟨handled, fun crossed ↦ ?_⟩
      have refused := assignedContents_of_crossed handled crossed replacement
      exact not_agrees_of_refused refused (fun given selected ↦ Failure.noConfusion) agrees
    · obtain ⟨failure, refused, other⟩ := assignedContents_of_not_handled nonzero handled replacement
      exact absurd agrees (not_agrees_of_refused refused other)
  · unfold listAssignSlice
    dsimp only
    rw [assignedContents_of_handled nonzero condition.1 condition.2]
    unfold Agrees
    cases pythonAssign items slice replacement <;> rfl

theorem listSlice_iff_reversed :
    (sliceList [1, 2, 3, 4] ⟨.none, .none, .int (-2)⟩ =
        .ok (pythonSlice [1, 2, 3, 4] ⟨.none, .none, .int (-2)⟩) ↔
      PySlice.Handled ⟨.none, .none, .int (-2)⟩ 4) ∧
    (listAssignSlice [1, 2, 3, 4] ⟨.none, .none, .int (-2)⟩ none =
        (.ok (), pythonDelete [1, 2, 3, 4] ⟨.none, .none, .int (-2)⟩) ↔
      PySlice.Handled ⟨.none, .none, .int (-2)⟩ 4) ∧
    (∀ replacement,
      Agrees (listAssignSlice [1, 2, 3, 4] ⟨.none, .none, .int (-2)⟩ (some replacement)) [1, 2, 3, 4]
          (pythonAssign [1, 2, 3, 4] ⟨.none, .none, .int (-2)⟩ replacement) ↔
        PySlice.Handled ⟨.none, .none, .int (-2)⟩ 4 ∧ ¬PySlice.Crossed ⟨.none, .none, .int (-2)⟩ 4) ∧
    ∀ value failure,
      (listAssignSlice [1, 2, 3, 4] ⟨.none, .none, .int (-2)⟩ value).1 = .error failure →
        (listAssignSlice [1, 2, 3, 4] ⟨.none, .none, .int (-2)⟩ value).2 = [1, 2, 3, 4] :=
  listSlice_iff [1, 2, 3, 4] ⟨.none, .none, .int (-2)⟩ (by decide)

/-- An assignment that stops before it starts panics, and Python inserts at the start. A stop above
every machine word is refused, and Python stops at the end. -/
theorem crossed_assignment_panics :
    listAssignSlice [1, 2, 3] ⟨.int 2, .int 1, .none⟩ (some [9]) = (.error .panicked, [1, 2, 3]) ∧
      pythonAssign [1, 2, 3] ⟨.int 2, .int 1, .none⟩ [9] = .ok [1, 2, 9, 3] ∧
      sliceList [1, 2, 3] ⟨.none, .int (2 ^ 63), .none⟩ = .error (.raised .expectedInt) ∧
      pythonSlice [1, 2, 3] ⟨.none, .int (2 ^ 63), .none⟩ = [1, 2, 3] := by
  refine ⟨by decide +kernel, by decide +kernel, by decide +kernel, by decide +kernel⟩

end Pon.Slice
