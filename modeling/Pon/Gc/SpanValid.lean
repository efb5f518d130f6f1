import Pon.Gc.Collect

/-!
# Spans

The representation invariant of a span and what the operations on a single span do to it: the search
for a free slot, taking the slot, scanning and sweeping.
-/

namespace Pon.Gc

/-- The representation invariant of a span. -/
structure SpanValid (span : Span) : Prop where
  class_lt : span.sizeClass < numSizeClasses
  elemSize_eq : span.elemSize = classElemSize span.sizeClass
  nelems_eq : span.nelems = spanBytes / span.elemSize
  base_pos : 0 < span.base
  base_aligned : spanBytes ∣ span.base
  alloc_length : span.allocBits.length = bitmapWords span.nelems
  mark_length : span.markBits.length = bitmapWords span.nelems
  scan_length : span.scanBits.length = bitmapWords span.nelems
  young_length : span.youngBits.length = bitmapWords span.nelems
  finalized_length : span.finalizedBits.length = bitmapWords span.nelems
  typeIds_length : span.typeIds.length = span.nelems
  live : span.liveCount = span.allocBits.count
  alloc_lt : ∀ slot, span.allocBits.get slot = true → slot < span.nelems
  mark_alloc : ∀ slot, span.markBits.get slot = true → span.allocBits.get slot = true
  scan_mark : ∀ slot, span.scanBits.get slot = true → span.markBits.get slot = true
  watermark : ∀ slot, span.allocBits.get slot = true → slot < span.zeroedWatermark
  hint : ∀ slot < span.freeHint, span.allocBits.get slot = true

/-- No object of the span is marked or queued for marking. -/
structure SpanQuiet (span : Span) : Prop where
  unmarked : ∀ slot, span.markBits.get slot = false
  unscanned : ∀ slot, span.scanBits.get slot = false
  notQueued : span.onQueue = false

theorem classElemSize_pos (sizeClass : ℕ) : 0 < classElemSize sizeClass := by
  unfold classElemSize defaultHeapAlignment
  omega

variable {span : Span} {slot : ℕ}

theorem SpanValid.elemSize_pos (h : SpanValid span) : 0 < span.elemSize := by
  rw [h.elemSize_eq]
  exact classElemSize_pos _

/-- The slots fit into the span. -/
theorem SpanValid.nelems_mul_le (h : SpanValid span) : span.nelems * span.elemSize ≤ spanBytes := by
  rw [h.nelems_eq]
  exact Nat.div_mul_le_self _ _

theorem SpanValid.slot_end_le (h : SpanValid span) (hslot : slot < span.nelems) :
    slot * span.elemSize + span.elemSize ≤ spanBytes := by
  calc
    slot * span.elemSize + span.elemSize = (slot + 1) * span.elemSize := (Nat.succ_mul _ _).symm
    _ ≤ span.nelems * span.elemSize := Nat.mul_le_mul_right _ hslot
    _ ≤ spanBytes := h.nelems_mul_le

theorem slot_div_lt_bitmapWords {nelems : ℕ} (h : slot < nelems) :
    slot / 64 < bitmapWords nelems := by
  unfold bitmapWords
  omega

theorem SpanValid.freeHint_le (h : SpanValid span) : span.freeHint ≤ span.nelems := by
  by_contra hlt
  have halloc := h.hint span.nelems (by omega)
  have := h.alloc_lt _ halloc
  omega

theorem spanValid_new {sizeClass base : ℕ} (hclass : sizeClass < numSizeClasses) (hpos : 0 < base)
    (haligned : spanBytes ∣ base) : SpanValid (Span.new sizeClass base) where
  class_lt := hclass
  elemSize_eq := rfl
  nelems_eq := rfl
  base_pos := hpos
  base_aligned := haligned
  alloc_length := Bitmap.length_zeros _
  mark_length := Bitmap.length_zeros _
  scan_length := Bitmap.length_zeros _
  young_length := Bitmap.length_zeros _
  finalized_length := Bitmap.length_zeros _
  typeIds_length := List.length_replicate
  live := (Bitmap.count_zeros _).symm
  alloc_lt := by simp [Span.new]
  mark_alloc := by simp [Span.new]
  scan_mark := by simp [Span.new]
  watermark := by simp [Span.new]
  hint := by simp [Span.new]

theorem spanQuiet_new (sizeClass base : ℕ) : SpanQuiet (Span.new sizeClass base) where
  unmarked := by simp [Span.new]
  unscanned := by simp [Span.new]
  notQueued := rfl

theorem getLsbD_mask {tail : ℕ} (htail : tail < 64) (bit : ℕ) :
    ((1#64 <<< tail) - 1#64).getLsbD bit = decide (bit < tail) := by
  have hone : (1#64 <<< tail).toNat = 2 ^ tail := by
    have hlt : 2 ^ tail < 2 ^ 64 := Nat.pow_lt_pow_right (by norm_num) htail
    have hval : (1#64).toNat = 1 := rfl
    rw [BitVec.toNat_shiftLeft, Nat.shiftLeft_eq, hval, one_mul, Nat.mod_eq_of_lt hlt]
  have hsub : ((1#64 <<< tail) - 1#64).toNat = 2 ^ tail - 1 := by
    rw [BitVec.toNat_sub_of_le, hone]
    · rfl
    · rw [BitVec.le_def, hone]
      exact Nat.one_le_two_pow
  rw [BitVec.getLsbD, hsub, Nat.testBit_two_pow_sub_one]

section

variable (h : SpanValid span)
include h

/-- A free bit stands for a slot of the span that is not allocated. -/
theorem SpanValid.getLsbD_freeWord {k : ℕ} (hk : k < bitmapWords span.nelems)
    {bit : ℕ} (hbit : bit < 64) :
    (span.freeWord k).getLsbD bit = true ↔
      k * 64 + bit < span.nelems ∧ span.allocBits.get (k * 64 + bit) = false := by
  have hdiv : (k * 64 + bit) / 64 = k := by omega
  have hmod : (k * 64 + bit) % 64 = bit := by omega
  have hget : span.allocBits.get (k * 64 + bit) = (span.allocBits.getD k 0#64).getLsbD bit := by
    rw [Bitmap.get, hdiv, hmod]
  have hnot : (~~~(span.allocBits.getD k 0#64)).getLsbD bit =
      !(span.allocBits.getD k 0#64).getLsbD bit := by
    simp [hbit]
  have hwords : bitmapWords span.nelems = (span.nelems + 63) / 64 := rfl
  unfold Span.freeWord
  dsimp only
  rw [h.alloc_length]
  split
  · rename_i hlast
    rw [BitVec.getLsbD_and, hnot, getLsbD_mask (Nat.mod_lt _ (by norm_num)), hget]
    have hiff : k * 64 + bit < span.nelems ↔ bit < span.nelems % 64 := by omega
    simp [hiff, and_comm]
  · rename_i hlast
    rw [hnot, hget]
    have hlt : k * 64 + bit < span.nelems := by
      by_cases hk' : k = bitmapWords span.nelems - 1
      · have : span.nelems % 64 = 0 := by
          by_contra hne
          exact hlast ⟨hk', hne⟩
        omega
      · omega
    simp [hlt]

/-- A search that starts at word `k` finds the lowest free slot from there on. -/
theorem SpanValid.findFreeFrom_spec (rounds k : ℕ)
    (hrounds : rounds + k = bitmapWords span.nelems) :
    match span.findFreeFrom rounds k with
    | some slot => slot < span.nelems ∧ span.allocBits.get slot = false ∧
        ∀ j, k * 64 ≤ j → j < slot → span.allocBits.get j = true
    | none => ∀ j, k * 64 ≤ j → j < span.nelems → span.allocBits.get j = true := by
  have hwords : bitmapWords span.nelems = (span.nelems + 63) / 64 := rfl
  induction rounds generalizing k with
  | zero =>
    rw [Span.findFreeFrom]
    intro j hj hlt
    omega
  | succ rounds ih =>
    rw [Span.findFreeFrom]
    by_cases hfree : span.freeWord k = 0
    · -- The whole word is taken, so the search continues in the next one.
      have htaken : ∀ j, k * 64 ≤ j → j < (k + 1) * 64 → j < span.nelems →
          span.allocBits.get j = true := by
        intro j hj hlt hnelems
        by_contra hunset
        have hlow : j - k * 64 < 64 := by omega
        have hbit := (h.getLsbD_freeWord (k := k) (by omega) hlow).mpr
          ⟨by omega, by rw [show k * 64 + (j - k * 64) = j by omega]; simpa using hunset⟩
        simp [hfree] at hbit
      have hnext := ih (k + 1) (by omega)
      simp only [hfree, ne_eq, not_true_eq_false, if_false]
      cases heq : span.findFreeFrom rounds (k + 1) with
      | some slot =>
        rw [heq] at hnext
        refine ⟨hnext.1, hnext.2.1, fun j hj hlt ↦ ?_⟩
        by_cases hin : j < (k + 1) * 64
        · exact htaken j hj hin (lt_trans hlt hnext.1)
        · exact hnext.2.2 j (by omega) hlt
      | none =>
        rw [heq] at hnext
        intro j hj hlt
        by_cases hin : j < (k + 1) * 64
        · exact htaken j hj hin hlt
        · exact hnext j (by omega) hlt
    · obtain ⟨htz, hbit, hbelow⟩ := Bitmap.trailingZeros_spec hfree
      simp only [hfree, ne_eq, not_false_eq_true, if_true]
      have hslot := (h.getLsbD_freeWord (by omega) htz).mp hbit
      refine ⟨hslot.1, hslot.2, fun j hj hlt ↦ ?_⟩
      have hunset := hbelow (j - k * 64) (by omega)
      have hlow : j - k * 64 < 64 := by omega
      have hiff := h.getLsbD_freeWord (k := k) (by omega) hlow
      rw [hunset, show k * 64 + (j - k * 64) = j by omega] at hiff
      by_contra hfalse
      have := hiff.mpr ⟨by omega, by simpa using hfalse⟩
      cases this

theorem SpanValid.findFreeSlot_some (hfind : span.findFreeSlot = some slot) :
    slot < span.nelems ∧ span.allocBits.get slot = false ∧ ∀ j < slot, span.allocBits.get j = true := by
  have hhint := h.freeHint_le
  have hwords : bitmapWords span.nelems = (span.nelems + 63) / 64 := rfl
  have hspec := h.findFreeFrom_spec (span.allocBits.length - span.freeHint / 64)
    (span.freeHint / 64) (by rw [h.alloc_length]; omega)
  rw [← Span.findFreeSlot, hfind] at hspec
  refine ⟨hspec.1, hspec.2.1, fun j hj ↦ ?_⟩
  by_cases hlow : j < span.freeHint
  · exact h.hint j hlow
  · exact hspec.2.2 j (by omega) hj

theorem SpanValid.findFreeSlot_isSome (hlive : span.liveCount < span.nelems) :
    ∃ slot, span.findFreeSlot = some slot := by
  have hhint := h.freeHint_le
  have hwords : bitmapWords span.nelems = (span.nelems + 63) / 64 := rfl
  have hspec := h.findFreeFrom_spec (span.allocBits.length - span.freeHint / 64)
    (span.freeHint / 64) (by rw [h.alloc_length]; omega)
  rw [← Span.findFreeSlot] at hspec
  cases hfind : span.findFreeSlot with
  | some slot => exact ⟨slot, rfl⟩
  | none =>
    rw [hfind] at hspec
    obtain ⟨j, hj, hunset⟩ := Bitmap.exists_unset_of_count_lt (h.live ▸ hlive)
      (by rw [h.alloc_length]; omega)
    have hset : span.allocBits.get j = true := by
      by_cases hlow : j < span.freeHint
      · exact h.hint j hlow
      · exact hspec j (by omega) hj
    rw [hset] at hunset
    cases hunset

theorem SpanValid.mark (halloc : span.allocBits.get slot = true)
    (queued : Bool) :
    SpanValid { span with markBits := span.markBits.set slot, onQueue := queued } := by
  have hword : slot / 64 < span.markBits.length := by
    rw [h.mark_length]
    exact slot_div_lt_bitmapWords (h.alloc_lt slot halloc)
  refine { h with mark_length := ?_, mark_alloc := ?_, scan_mark := ?_ }
  · simpa using h.mark_length
  · intro j hj
    simp only [Bitmap.get_set hword, Bool.or_eq_true, decide_eq_true_eq] at hj
    rcases hj with rfl | hj
    · exact halloc
    · exact h.mark_alloc j hj
  · intro j hj
    simp [Bitmap.get_set hword, h.scan_mark j hj]

/-- Marking a slot leaves one slot less to mark. -/
theorem SpanValid.unmarkedCount_mark (halloc : span.allocBits.get slot = true)
    (hmark : span.markBits.get slot = false) (queued : Bool) :
    ({ span with markBits := span.markBits.set slot, onQueue := queued } : Span).unmarkedCount + 1 =
      span.unmarkedCount := by
  have hword : slot / 64 < bitmapWords span.nelems := slot_div_lt_bitmapWords (h.alloc_lt slot halloc)
  have hlength : span.allocBits.length = span.markBits.length := h.alloc_length.trans h.mark_length.symm
  have hlength' : span.allocBits.length = (span.markBits.set slot).length := by simpa using hlength
  unfold Span.unmarkedCount
  dsimp only
  rw [← Bitmap.count_set (i := slot) (by simpa [h.alloc_length, h.mark_length] using hword)
    (by simp [Bitmap.get_andNot hlength', Bitmap.get_set (h.mark_length ▸ hword)])]
  apply Bitmap.count_congr
  · simp
  · intro j
    rw [Bitmap.get_set (by simpa [h.alloc_length, h.mark_length] using hword),
      Bitmap.get_andNot hlength', Bitmap.get_andNot hlength, Bitmap.get_set (h.mark_length ▸ hword)]
    by_cases hj : j = slot
    · simp [hj, halloc, hmark]
    · simp [hj]

theorem SpanValid.get_scanned (slot : ℕ) :
    span.scanned.scanBits.get slot = span.markBits.get slot := by
  have hlength : span.markBits.length = span.scanBits.length := h.mark_length.trans h.scan_length.symm
  have hactive : span.scanBits.length = span.activeBits.length := by
    simp [Span.activeBits, hlength]
  have himp := h.scan_mark slot
  rw [Span.scanned, Bitmap.get_or hactive, Span.activeBits, Bitmap.get_andNot hlength]
  cases hscan : span.scanBits.get slot
  · simp
  · simp [himp hscan]

theorem SpanValid.scanned : SpanValid span.scanned := by
  refine { h with scan_length := ?_, scan_mark := ?_ }
  · simp [Span.scanned, Span.activeBits, h.mark_length, h.scan_length]
  · intro slot hslot
    rwa [h.get_scanned] at hslot

theorem SpanValid.mem_activeBits :
    slot ∈ span.activeBits.indices ↔
      span.markBits.get slot = true ∧ span.scanBits.get slot = false := by
  rw [Bitmap.mem_indices, Span.activeBits, Bitmap.get_andNot (h.mark_length.trans h.scan_length.symm)]
  simp

theorem SpanValid.finalize (slot : ℕ) :
    SpanValid { span with finalizedBits := span.finalizedBits.set slot } :=
  { h with finalized_length := by simpa using h.finalized_length }

theorem SpanValid.mem_deadBits :
    slot ∈ span.deadBits.indices ↔ span.allocBits.get slot = true ∧ span.markBits.get slot = false ∧
      span.youngBits.get slot = false ∧ span.finalizedBits.get slot = false := by
  have h₁ : span.allocBits.length = span.markBits.length := h.alloc_length.trans h.mark_length.symm
  have h₂ : (span.allocBits.andNot span.markBits).length = span.youngBits.length := by
    simp [h.alloc_length, h.mark_length, h.young_length]
  have h₃ : ((span.allocBits.andNot span.markBits).andNot span.youngBits).length =
      span.finalizedBits.length := by
    simp [h.alloc_length, h.mark_length, h.young_length, h.finalized_length]
  rw [Bitmap.mem_indices, Span.deadBits, Bitmap.get_andNot h₃, Bitmap.get_andNot h₂,
    Bitmap.get_andNot h₁]
  simp [and_assoc]

/-- The slots that survive a sweep are the marked and the young ones. -/
theorem SpanValid.get_keepBits (slot : ℕ) :
    span.keepBits.get slot =
      (span.allocBits.get slot && (span.markBits.get slot || span.youngBits.get slot)) := by
  have hyoung : span.allocBits.length = span.youngBits.length :=
    h.alloc_length.trans h.young_length.symm
  have hmark : span.markBits.length = (span.allocBits.and span.youngBits).length := by
    simp [h.alloc_length, h.mark_length, h.young_length]
  rw [Span.keepBits, Bitmap.get_or hmark, Bitmap.get_and hyoung]
  cases hm : span.markBits.get slot
  · simp
  · simp [h.mark_alloc slot hm]

theorem SpanValid.swept : SpanValid span.swept := by
  have hkeep : ∀ slot, span.keepBits.get slot = true → span.allocBits.get slot = true := by
    intro slot hslot
    rw [h.get_keepBits, Bool.and_eq_true] at hslot
    exact hslot.1
  refine
    { h with
      alloc_length := ?_
      mark_length := ?_
      scan_length := ?_
      young_length := ?_
      live := rfl
      alloc_lt := fun slot hslot ↦ h.alloc_lt slot (hkeep slot hslot)
      mark_alloc := ?_
      scan_mark := ?_
      watermark := fun slot hslot ↦ h.watermark slot (hkeep slot hslot)
      hint := ?_ }
  · simp [Span.swept, Span.keepBits, h.alloc_length, h.mark_length, h.young_length]
  · simpa [Span.swept] using h.mark_length
  · simpa [Span.swept] using h.scan_length
  · simpa [Span.swept] using h.young_length
  · simp [Span.swept]
  · simp [Span.swept]
  · intro slot hslot
    simp [Span.swept] at hslot

end

theorem spanQuiet_swept (span : Span) : SpanQuiet span.swept where
  unmarked := by simp [Span.swept]
  unscanned := by simp [Span.swept]
  notQueued := rfl

/-- Take the slot that the search found. -/
theorem SpanValid.allocSlot (h : SpanValid span) (hfind : span.findFreeSlot = some slot)
    (typeId : ℕ) :
    SpanValid (span.allocSlot slot typeId) := by
  obtain ⟨hlt, hfree, hbelow⟩ := h.findFreeSlot_some hfind
  have hword : slot / 64 < span.allocBits.length := by
    rw [h.alloc_length]
    exact slot_div_lt_bitmapWords hlt
  have hget : ∀ j, (span.allocSlot slot typeId).allocBits.get j = true ↔
      j = slot ∨ span.allocBits.get j = true := by
    intro j
    simp [Span.allocSlot, Bitmap.get_set hword]
  refine
    { h with
      alloc_length := by simpa [Span.allocSlot] using h.alloc_length
      young_length := by simpa [Span.allocSlot] using h.young_length
      finalized_length := by simpa [Span.allocSlot] using h.finalized_length
      typeIds_length := by simpa [Span.allocSlot] using h.typeIds_length
      live := ?_
      alloc_lt := ?_
      mark_alloc := fun j hj ↦ (hget j).mpr (Or.inr (h.mark_alloc j hj))
      watermark := ?_
      hint := fun j hj ↦ (hget j).mpr (Or.inr (hbelow j hj)) }
  · simp [Span.allocSlot, Bitmap.count_set hword hfree, h.live]
  · intro j hj
    rcases (hget j).mp hj with rfl | hj
    · exact hlt
    · exact h.alloc_lt j hj
  · intro j hj
    simp only [Span.allocSlot]
    rcases (hget j).mp hj with rfl | hj
    · split <;> omega
    · have := h.watermark j hj
      split <;> omega

theorem SpanQuiet.allocSlot (h : SpanQuiet span) (slot typeId : ℕ) :
    SpanQuiet (span.allocSlot slot typeId) :=
  ⟨h.unmarked, h.unscanned, h.notQueued⟩

end Pon.Gc
