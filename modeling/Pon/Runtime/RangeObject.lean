import Pon.Lib.Effect
import Pon.Runtime.ListSlice

/-!
# Range objects

A range object is built from three machine words and stores the number of its items. The number is
worked out in 128 bits, except that the step is negated in 64 bits. An item is worked out in 64 bits: the
product of the index and the step can overflow where the item does not.
-/

namespace Pon.Slice

open Codegen

/-- An operation raises an error, or panics. -/
inductive RangeFailure
  | raised (message : String)
  | panicked

def Failure.ofRange : Failure → RangeFailure
  | .raised error => .raised error.message
  | .panicked => .panicked

/-- The message that is raised as an IndexError. -/
def outOfRange : RangeFailure := .raised "sequence index out of range"

structure PyRange where
  start : Int64
  stop : Int64
  step : Int64
  len : ℕ

def rangeLen (start stop step : ℤ) : Except RangeFailure ℕ := do
  let len : ℤ ←
    if step = 0 then .error (.raised "range() arg 3 must not be zero")
    else if 0 < step then
      if stop ≤ start then .ok 0 else .ok ((stop - start - 1) / step + 1)
    else if start ≤ stop then .ok 0
    else if step = -2 ^ 63 then .error .panicked
    else .ok ((start - stop - 1) / (-step) + 1)
  if len < 2 ^ 64 then .ok len.toNat else .error (.raised "range is too large")

def allocRange (start stop step : Int64) : Except RangeFailure PyRange := do
  let len ← rangeLen start.toInt stop.toInt step.toInt
  .ok { start, stop, step, len }

def normalizeIndex (index : ℤ) (len : ℕ) : Except RangeFailure ℤ :=
  if 2 ^ 63 ≤ (len : ℤ) then .error (.raised "sequence is too large for this platform")
  else
    let adjusted := if index < 0 then saturating (index + len) else index
    if adjusted < 0 ∨ len ≤ adjusted then .error outOfRange else .ok adjusted

/-- `checked_mul` and `checked_add` of an item. -/
def checked (value : ℤ) : Except RangeFailure ℤ :=
  if -2 ^ 63 ≤ value ∧ value < 2 ^ 63 then .ok value else .error (.raised "range item overflow")

/-- `try_reserve_exact` of as many pointers: their bytes must not pass the largest `isize`. -/
def reserve (len : ℕ) : Except RangeFailure Unit :=
  if len < 2 ^ 60 then .ok () else .error (.raised "slice result allocation failed")

namespace PyRange

variable (range : PyRange)

def itemValue (index : ℤ) : Except RangeFailure ℤ := do
  let offset ← normalizeIndex index range.len
  let product ← checked (offset * range.step.toInt)
  checked (range.start.toInt + product)

def subscript (key : ℤ) : Except RangeFailure ℤ := do
  let index ← (indexValue key).mapError Failure.ofRange
  range.itemValue index

/-- `sequence_slice_raw` on a range. -/
def subscriptSlice (slice : PySlice) : Except RangeFailure (List ℤ) := do
  let indices ← (normalizeSlice slice range.len).mapError Failure.ofRange
  reserve indices.len
  indices.walked.mapM range.itemValue

def item (position : ℤ) : ℤ := range.start.toInt + position * range.step.toInt

/-- `r[i]`. -/
def pythonItem (index : ℤ) : Except RangeFailure ℤ :=
  if -range.len ≤ index ∧ index < range.len then .ok (range.item (index % range.len))
  else .error outOfRange

/-- The product of the position and the step is a machine word. -/
def Reaches (position : ℤ) : Prop :=
  -2 ^ 63 ≤ position * range.step.toInt ∧ position * range.step.toInt < 2 ^ 63

/-- The length, the index and the product of its position and the step are machine words. -/
def Answers (index : ℤ) : Prop :=
  (range.len : ℤ) < 2 ^ 63 ∧ (-2 ^ 63 ≤ index ∧ index < 2 ^ 63) ∧
    (-range.len ≤ index ∧ index < range.len → range.Reaches (index % range.len))

variable {range} {index position : ℤ}

/-- Building a range panics where the least step has to be negated. -/
theorem allocRange_cases (start stop step : Int64) :
    (step.toInt = 0 ∧ ∃ message, allocRange start stop step = .error (.raised message)) ∨
    ((step.toInt = -2 ^ 63 ∧ stop.toInt < start.toInt) ∧
      allocRange start stop step = .error .panicked) ∨
    step.toInt ≠ 0 ∧ ¬(step.toInt = -2 ^ 63 ∧ stop.toInt < start.toInt) ∧
      allocRange start stop step =
        .ok ⟨start, stop, step, rangeLength start.toInt stop.toInt step.toInt⟩ := by
  have startLow := start.le_toInt
  have startHigh := start.toInt_lt
  have stopLow := stop.le_toInt
  have stopHigh := stop.toInt_lt
  unfold allocRange rangeLen
  generalize start.toInt = first at *
  generalize stop.toInt = last at *
  obtain zero | negative | positive : step.toInt = 0 ∨ step.toInt < 0 ∨ 0 < step.toInt := by omega
  · exact Or.inl ⟨zero, _, by rw [if_pos zero]; rfl⟩
  · rw [rangeLength_of_negative negative, if_neg negative.ne, if_neg negative.not_gt]
    have nonneg : first > last → (first - last - 1) / (-step.toInt) ≤ first - last - 1 := fun _ ↦
      Int.ediv_le_self _ (by omega)
    split_ifs with empty least
    · exact Or.inr (Or.inr ⟨negative.ne, by omega, rfl⟩)
    · exact Or.inr (Or.inl ⟨⟨least, by omega⟩, rfl⟩)
    · refine Or.inr (Or.inr ⟨negative.ne, by omega, ?_⟩)
      dsimp only [bind, Except.bind]
      rw [if_pos (by omega)]
  · rw [rangeLength_of_positive positive, if_neg positive.ne', if_pos positive]
    have nonneg : first < last → (last - first - 1) / step.toInt ≤ last - first - 1 := fun _ ↦
      Int.ediv_le_self _ (by omega)
    refine Or.inr (Or.inr ⟨positive.ne', by omega, ?_⟩)
    split_ifs with empty
    · rfl
    · dsimp only [bind, Except.bind]
      rw [if_pos (by omega)]

theorem normalizeIndex_of_word (word : (range.len : ℤ) < 2 ^ 63)
    (fits : -2 ^ 63 ≤ index ∧ index < 2 ^ 63) :
    normalizeIndex index range.len =
      if -range.len ≤ index ∧ index < range.len then .ok (index % range.len)
      else .error outOfRange := by
  rw [normalizeIndex, if_neg word.not_ge]
  dsimp only
  by_cases negative : index < 0
  · rw [if_pos negative, saturating_of_fits (by omega) (by omega), ← Int.add_emod_right]
    split_ifs <;> first | rfl | rw [Int.emod_eq_of_lt (by omega) (by omega)] | omega
  · rw [if_neg negative]
    split_ifs <;> first | rfl | rw [Int.emod_eq_of_lt (by omega) (by omega)] | omega

section Built

variable (nonzero : range.step.toInt ≠ 0)
  (built : range.len = rangeLength range.start.toInt range.stop.toInt range.step.toInt)
include nonzero built

/-- The item at a position is read where the product does not overflow. -/
theorem checked_item (inside : 0 ≤ position ∧ position < range.len) :
    (do let product ← checked (position * range.step.toInt)
        checked (range.start.toInt + product)) = .ok (range.item position) ↔
      range.Reaches position := by
  unfold Reaches
  constructor
  · intro read
    by_contra overflow
    rw [checked, if_neg overflow] at read
    exact nomatch read
  · intro reaches
    have steps : range.step ≠ 0 := fun zero ↦ nonzero (zero ▸ rfl)
    have bounds := @RangeIterSpec.item_bounds ⟨range.start, range.stop, range.step⟩ position.toNat
      steps (by rw [RangeIterSpec.length, ← built]; omega)
    rw [Int.toNat_of_nonneg inside.1] at bounds
    rw [checked, if_pos reaches]
    exact if_pos bounds

theorem subscript_iff : range.subscript index = range.pythonItem index ↔ range.Answers index := by
  unfold subscript pythonItem indexValue
  by_cases fits : -2 ^ 63 ≤ index ∧ index < 2 ^ 63
  · rw [if_pos fits]
    change range.itemValue index = _ ↔ _
    unfold itemValue
    by_cases word : (range.len : ℤ) < 2 ^ 63
    · rw [normalizeIndex_of_word word fits]
      split_ifs with inside
      · have position : 0 ≤ index % range.len ∧ index % range.len < range.len :=
          ⟨Int.emod_nonneg _ (by omega), Int.emod_lt_of_pos _ (by omega)⟩
        exact (checked_item nonzero built position).trans
          ⟨fun reaches ↦ ⟨word, fits, fun _ ↦ reaches⟩, fun condition ↦ condition.2.2 inside⟩
      · exact ⟨fun _ ↦ ⟨word, fits, fun within ↦ absurd within inside⟩, fun _ ↦ rfl⟩
    · rw [normalizeIndex, if_pos (not_lt.mp word)]
      refine ⟨fun read ↦ ?_, fun condition ↦ absurd condition.1 word⟩
      split_ifs at read
      · exact nomatch read
      · exact absurd (RangeFailure.raised.inj (Except.error.inj read)) (by decide)
  · rw [if_neg fits]
    refine ⟨fun read ↦ ?_, fun condition ↦ absurd condition.2.1 fits⟩
    split_ifs at read
    · exact nomatch read
    · exact absurd (RangeFailure.raised.inj (Except.error.inj read)) (by decide)

theorem mapM_itemValue_iff (word : (range.len : ℤ) < 2 ^ 63) {selected : List ℤ}
    (inside : ∀ position ∈ selected, 0 ≤ position ∧ position < range.len) :
    selected.mapM range.itemValue = .ok (selected.map range.item) ↔
      ∀ position ∈ selected, range.Reaches position := by
  induction selected with
  | nil => exact ⟨fun _ ↦ nofun, fun _ ↦ rfl⟩
  | cons position selected ih =>
    obtain ⟨first, rest⟩ := List.forall_mem_cons.mp inside
    have read : range.itemValue position = .ok (range.item position) ↔ range.Reaches position := by
      unfold itemValue
      rw [normalizeIndex_of_word word (by omega), if_pos (by omega), Int.emod_eq_of_lt first.1 first.2]
      exact checked_item nonzero built first
    rw [List.forall_mem_cons, ← read, ← ih rest, List.mapM_cons]
    constructor
    · intro all
      obtain ⟨value, one, all⟩ := Effect.ok_of_bind all
      obtain ⟨values, others, all⟩ := Effect.ok_of_bind all
      obtain ⟨rfl, rfl⟩ := List.cons.inj (Except.ok.inj all)
      exact ⟨one, others⟩
    · rintro ⟨one, others⟩
      rw [one, others]
      rfl

theorem subscriptSlice_iff {slice : PySlice} (step : slice.stepValue ≠ 0) :
    range.subscriptSlice slice = .ok ((slice.selected range.len).map range.item) ↔
      slice.Handled range.len ∧ (slice.selected range.len).length < 2 ^ 60 ∧
        ∀ position ∈ slice.selected range.len, range.Reaches position := by
  by_cases handled : slice.Handled range.len
  · have normalized := normalizeSlice_of_handled step handled
    have walked := walked_of_handled step handled normalized
    unfold subscriptSlice
    rw [normalized]
    change (do reserve (slice.selected range.len).length
               (SliceIndices.walked _).mapM range.itemValue) = _ ↔ _
    rw [walked, and_iff_right handled, reserve]
    split_ifs with fits
    · rw [and_iff_right fits]
      exact mapM_itemValue_iff nonzero built handled.word fun _ ↦ PySlice.mem_selected step
    · exact ⟨nofun, fun condition ↦ absurd condition.1 fits⟩
  · obtain ⟨failure, refused, -⟩ := normalizeSlice_of_not_handled step handled
    refine ⟨fun read ↦ ?_, fun condition ↦ absurd condition.1 handled⟩
    unfold subscriptSlice at read
    rw [refused] at read
    exact nomatch read

end Built

end PyRange

end Pon.Slice
