import Mathlib.Algebra.BigOperators.Intervals
import Mathlib.Data.Nat.Bitwise
import Mathlib.Tactic.Ring

/-!
# Bitmaps in 64-bit words

A bitmap is a sequence of machine words; bit `i` is bit `i % 64` of word `i / 64`, and bits past the
end read as unset. The operations are the word operations of an allocator or a collector: set and
clear a bit, combine two bitmaps word by word, count the set bits, and visit them in ascending
order by repeatedly taking the lowest set bit of a word.
-/

namespace Pon

/-- A bitmap, lowest word first. -/
abbrev Bitmap := List (BitVec 64)

namespace Bitmap

/-- Number of trailing zeros, 64 for the zero word. -/
def trailingZeros (word : BitVec 64) : ℕ :=
  ((List.range 64).find? word.getLsbD).getD 64

def countOnes (word : BitVec 64) : ℕ :=
  ((Finset.range 64).filter fun i ↦ word.getLsbD i).card

/-- The loop `while word != 0`, which takes the lowest set bit and clears it in each round. -/
def setBitsLoop : ℕ → BitVec 64 → List ℕ
  | 0, _ => []
  | rounds + 1, word =>
    if word = 0 then [] else trailingZeros word :: setBitsLoop rounds (word &&& (word - 1))

/-- The set bits of a word, in ascending order. -/
def setBits (word : BitVec 64) : List ℕ :=
  setBitsLoop 64 word

variable {word : BitVec 64} {i : ℕ} {bits left right : Bitmap}

theorem trailingZeros_spec (h : word ≠ 0) :
    trailingZeros word < 64 ∧ word.getLsbD (trailingZeros word) = true ∧
      ∀ j < trailingZeros word, word.getLsbD j = false := by
  have hex : ∃ i < 64, word.getLsbD i = true := by
    by_contra hnone
    apply h
    apply BitVec.eq_of_getLsbD_eq
    intro i hi
    have : word.getLsbD i = false := by
      by_contra htrue
      exact hnone ⟨i, hi, by simpa using htrue⟩
    simp [this]
  have hfind : ∃ k, (List.range 64).find? word.getLsbD = some k := by
    rw [← Option.isSome_iff_exists, List.find?_isSome]
    obtain ⟨i, hi, hbit⟩ := hex
    exact ⟨i, List.mem_range.mpr hi, hbit⟩
  obtain ⟨k, hk⟩ := hfind
  have htz : trailingZeros word = k := by simp [trailingZeros, hk]
  rw [htz]
  refine ⟨List.mem_range.mp (List.mem_of_find?_eq_some hk), List.find?_some hk, ?_⟩
  intro j hj
  have hlt : k < 64 := List.mem_range.mp (List.mem_of_find?_eq_some hk)
  obtain ⟨_, i, hi, hget, hbefore⟩ := List.find?_eq_some_iff_getElem.mp hk
  simp only [List.getElem_range] at hget hbefore
  subst hget
  simpa using hbefore j hj

/-- Subtracting one and masking clears the lowest set bit and no other. -/
theorem getLsbD_and_sub_one (h : word ≠ 0) (j : ℕ) :
    (word &&& (word - 1)).getLsbD j = (word.getLsbD j && j != trailingZeros word) := by
  obtain ⟨hlt, hbit, hbelow⟩ := trailingZeros_spec h
  generalize trailingZeros word = k at hlt hbit hbelow
  -- The word is an odd number shifted by `k`.
  have hdvd : word.toNat % 2 ^ k = 0 := by
    apply Nat.eq_of_testBit_eq
    intro i
    rw [Nat.testBit_mod_two_pow, Nat.zero_testBit]
    by_cases hi : i < k
    · have := hbelow i hi
      rw [BitVec.getLsbD] at this
      simp [this]
    · simp [hi]
  obtain ⟨q, hq⟩ : ∃ q, word.toNat = 2 ^ k * q := (Nat.dvd_of_mod_eq_zero hdvd)
  have hodd : q % 2 = 1 := by
    rw [BitVec.getLsbD, hq, Nat.testBit_two_pow_mul] at hbit
    simpa [Nat.testBit_zero] using hbit
  obtain ⟨p, rfl⟩ : ∃ p, q = 2 * p + 1 := ⟨q / 2, by omega⟩
  have hpos : 0 < 2 ^ k := Nat.two_pow_pos k
  have hpred : (word - 1).toNat = 2 ^ k * (2 * p) + (2 ^ k - 1) := by
    have hone : 1 ≤ word.toNat := by
      rw [hq]
      exact Nat.mul_pos hpos (by omega)
    have hwlt := word.isLt
    rw [BitVec.toNat_sub_of_le (by simpa [BitVec.le_def] using hone), hq, mul_add, mul_one]
    simp
    omega
  rw [BitVec.getLsbD_and, BitVec.getLsbD, BitVec.getLsbD, hpred, hq,
    show 2 ^ k * (2 * p + 1) = 2 ^ k * (2 * p + 1) + 0 by ring,
    Nat.testBit_two_pow_mul_add _ hpos, Nat.testBit_two_pow_mul_add _ (by omega)]
  by_cases hj : j < k
  · simp [hj]
  · by_cases hjk : j = k
    · subst hjk
      simp [Nat.testBit_zero]
    · obtain ⟨d, hd⟩ : ∃ d, j - k = d + 1 := ⟨j - k - 1, by omega⟩
      have hne : (j != k) = true := by simpa using hjk
      simp only [hj, if_false, hd, hne, Bool.and_true]
      rw [Nat.testBit_succ, Nat.testBit_succ]
      have h₁ : (2 * p + 1) / 2 = p := by omega
      have h₂ : 2 * p / 2 = p := by omega
      rw [h₁, h₂, Bool.and_self]

theorem countOnes_and_sub_one (h : word ≠ 0) :
    countOnes (word &&& (word - 1)) + 1 = countOnes word := by
  obtain ⟨hlt, hbit, _⟩ := trailingZeros_spec h
  have herase : (Finset.range 64).filter (fun i ↦ (word &&& (word - 1)).getLsbD i) =
      ((Finset.range 64).filter fun i ↦ word.getLsbD i).erase (trailingZeros word) := by
    ext i
    simp only [Finset.mem_filter, Finset.mem_range, Finset.mem_erase, getLsbD_and_sub_one h,
      Bool.and_eq_true, bne_iff_ne]
    tauto
  unfold countOnes
  rw [herase]
  exact Finset.card_erase_add_one (by simp [hlt, hbit])

theorem countOnes_le (word : BitVec 64) : countOnes word ≤ 64 := by
  calc
    countOnes word ≤ (Finset.range 64).card := Finset.card_filter_le _ _
    _ = 64 := Finset.card_range 64

theorem mem_setBitsLoop {rounds : ℕ} (h : countOnes word ≤ rounds) (i : ℕ) :
    i ∈ setBitsLoop rounds word ↔ word.getLsbD i = true := by
  induction rounds generalizing word with
  | zero =>
    have hzero : word = 0 := by
      by_contra hne
      have := countOnes_and_sub_one hne
      omega
    simp [setBitsLoop, hzero]
  | succ rounds ih =>
    rw [setBitsLoop]
    split
    · rename_i hzero
      simp [hzero]
    · rename_i hne
      have hcount := countOnes_and_sub_one hne
      obtain ⟨_, hbit, _⟩ := trailingZeros_spec hne
      rw [List.mem_cons, ih (by omega), getLsbD_and_sub_one hne, Bool.and_eq_true, bne_iff_ne]
      constructor
      · rintro (rfl | ⟨hi, _⟩)
        · exact hbit
        · exact hi
      · intro hi
        by_cases heq : i = trailingZeros word
        · exact Or.inl heq
        · exact Or.inr ⟨hi, heq⟩

theorem nodup_setBitsLoop {rounds : ℕ} (h : countOnes word ≤ rounds) :
    (setBitsLoop rounds word).Nodup := by
  induction rounds generalizing word with
  | zero => exact List.nodup_nil
  | succ rounds ih =>
    rw [setBitsLoop]
    split
    · exact List.nodup_nil
    · rename_i hne
      have hcount := countOnes_and_sub_one hne
      rw [List.nodup_cons, mem_setBitsLoop (by omega), getLsbD_and_sub_one hne]
      exact ⟨by simp, ih (by omega)⟩

theorem mem_setBits : i ∈ setBits word ↔ word.getLsbD i = true :=
  mem_setBitsLoop (countOnes_le word) i

theorem nodup_setBits (word : BitVec 64) : (setBits word).Nodup :=
  nodup_setBitsLoop (countOnes_le word)

theorem length_setBits (word : BitVec 64) : (setBits word).length = countOnes word := by
  rw [← List.toFinset_card_of_nodup (nodup_setBits word), countOnes]
  congr 1
  ext i
  rw [List.mem_toFinset, mem_setBits, Finset.mem_filter, Finset.mem_range]
  exact ⟨fun h ↦ ⟨BitVec.lt_of_getLsbD h, h⟩, And.right⟩

theorem lt_of_mem_setBits (h : i ∈ setBits word) : i < 64 := by
  rw [mem_setBits] at h
  exact BitVec.lt_of_getLsbD h

/-- A bitmap of `words` words without set bits. -/
def zeros (words : ℕ) : Bitmap :=
  List.replicate words 0#64

/-- Bit `i`; bits past the end are unset. -/
def get (bits : Bitmap) (i : ℕ) : Bool :=
  (bits.getD (i / 64) 0#64).getLsbD (i % 64)

def set (bits : Bitmap) (i : ℕ) : Bitmap :=
  bits.modify (i / 64) fun word ↦ word ||| 1#64 <<< (i % 64)

def clear (bits : Bitmap) (i : ℕ) : Bitmap :=
  bits.modify (i / 64) fun word ↦ word &&& ~~~(1#64 <<< (i % 64))

/-- The bitmaps combined word by word. -/
def or (left right : Bitmap) : Bitmap :=
  List.zipWith (· ||| ·) left right

def and (left right : Bitmap) : Bitmap :=
  List.zipWith (· &&& ·) left right

/-- The bits of `left` that are not in `right`. -/
def andNot (left right : Bitmap) : Bitmap :=
  List.zipWith (fun l r ↦ l &&& ~~~r) left right

/-- Number of set bits. -/
def count (bits : Bitmap) : ℕ :=
  (bits.map countOnes).sum

/-- The set bits of the words from word `k` on, in ascending order. -/
def indicesFrom : ℕ → Bitmap → List ℕ
  | _, [] => []
  | k, word :: rest => (setBits word).map (fun bit ↦ k * 64 + bit) ++ indicesFrom (k + 1) rest

/-- The set bits in ascending order. -/
def indices (bits : Bitmap) : List ℕ :=
  indicesFrom 0 bits

variable (words : ℕ)

@[simp]
theorem length_zeros : (zeros words).length = words :=
  List.length_replicate

@[simp]
theorem length_set (bits : Bitmap) (i : ℕ) : (bits.set i).length = bits.length :=
  List.length_modify _ _ _

@[simp]
theorem length_clear (bits : Bitmap) (i : ℕ) : (bits.clear i).length = bits.length :=
  List.length_modify _ _ _

@[simp]
theorem length_or (left right : Bitmap) : (left.or right).length = min left.length right.length :=
  List.length_zipWith

@[simp]
theorem length_and (left right : Bitmap) : (left.and right).length = min left.length right.length :=
  List.length_zipWith

@[simp]
theorem length_andNot (left right : Bitmap) :
    (left.andNot right).length = min left.length right.length := List.length_zipWith

@[simp]
theorem get_zeros (i : ℕ) : (zeros words).get i = false := by
  simp [get, zeros, List.getD_eq_getElem?_getD, List.getElem?_replicate]
  split <;> simp

theorem get_eq_false_of_length_le (h : bits.length ≤ i / 64) : bits.get i = false := by
  simp [get, List.getD_eq_getElem?_getD, List.getElem?_eq_none h]

theorem get_cons_lt (word : BitVec 64) (rest : Bitmap) (hi : i < 64) :
    get (word :: rest) i = word.getLsbD i := by
  have hdiv : i / 64 = 0 := by omega
  have hmod : i % 64 = i := by omega
  simp [get, hdiv, hmod]

theorem get_cons_add (word : BitVec 64) (rest : Bitmap) (i : ℕ) :
    get (word :: rest) (64 + i) = rest.get i := by
  have hdiv : (64 + i) / 64 = i / 64 + 1 := by omega
  have hmod : (64 + i) % 64 = i % 64 := by omega
  simp [get, hdiv, hmod]

theorem get_modify (hi : i / 64 < bits.length) (u : BitVec 64 → BitVec 64) (j : ℕ) :
    get (bits.modify (i / 64) u) j =
      if i / 64 = j / 64 then (u bits[i / 64]).getLsbD (j % 64) else bits.get j := by
  unfold get
  rw [List.getD_eq_getElem?_getD, List.getD_eq_getElem?_getD, List.getElem?_modify]
  split_ifs with hword
  · rw [← hword, List.getElem?_eq_getElem hi]
    rfl
  · simp

theorem get_same_word (hi : i / 64 < bits.length) {j : ℕ} (hword : i / 64 = j / 64) :
    bits.get j = bits[i / 64].getLsbD (j % 64) := by
  rw [get, List.getD_eq_getElem?_getD, ← hword, List.getElem?_eq_getElem hi, Option.getD_some]

/-- The bit that a shifted one sets. -/
theorem getLsbD_one_shiftLeft {j : ℕ} (hword : i / 64 = j / 64) :
    (1#64 <<< (i % 64)).getLsbD (j % 64) = decide (j = i) := by
  rw [BitVec.getLsbD_shiftLeft, BitVec.getLsbD_one, Bool.eq_iff_iff]
  simp
  omega

theorem get_set (hi : i / 64 < bits.length) (j : ℕ) :
    (bits.set i).get j = (decide (j = i) || bits.get j) := by
  rw [set, get_modify hi]
  split_ifs with hword
  · rw [BitVec.getLsbD_or, getLsbD_one_shiftLeft hword, get_same_word hi hword, Bool.or_comm]
  · have hne : j ≠ i := fun h ↦ hword (by rw [h])
    simp [hne]

theorem get_clear (hi : i / 64 < bits.length) (j : ℕ) :
    (bits.clear i).get j = (decide (j ≠ i) && bits.get j) := by
  rw [clear, get_modify hi]
  split_ifs with hword
  · have hj : j % 64 < 64 := Nat.mod_lt _ (by norm_num)
    rw [BitVec.getLsbD_and, BitVec.getLsbD_not, getLsbD_one_shiftLeft hword, get_same_word hi hword,
      Bool.and_comm]
    simp [hj]
  · have hne : j ≠ i := fun h ↦ hword (by rw [h])
    simp [hne]

/-- Operations on the words that act on the single bits. -/
theorem get_zipWith {op : BitVec 64 → BitVec 64 → BitVec 64} {f : Bool → Bool → Bool}
    (bitwise : ∀ x y j, j < 64 → (op x y).getLsbD j = f (x.getLsbD j) (y.getLsbD j))
    (hf : f false false = false) (h : left.length = right.length) (i : ℕ) :
    get (List.zipWith op left right) i = f (left.get i) (right.get i) := by
  unfold get
  simp only [List.getD_eq_getElem?_getD, List.getElem?_zipWith]
  by_cases hi : i / 64 < left.length
  · simp [List.getElem?_eq_getElem hi, List.getElem?_eq_getElem (h ▸ hi),
      bitwise _ _ _ (Nat.mod_lt i (by norm_num))]
  · simp [List.getElem?_eq_none (not_lt.mp hi), List.getElem?_eq_none (h ▸ not_lt.mp hi), hf]

section

variable (h : left.length = right.length)
include h

theorem get_or (i : ℕ) :
    (left.or right).get i = (left.get i || right.get i) :=
  get_zipWith (f := (· || ·)) (fun _ _ _ _ ↦ BitVec.getLsbD_or) rfl h i

theorem get_and (i : ℕ) :
    (left.and right).get i = (left.get i && right.get i) :=
  get_zipWith (f := (· && ·)) (fun _ _ _ _ ↦ BitVec.getLsbD_and) rfl h i

theorem get_andNot (i : ℕ) :
    (left.andNot right).get i = (left.get i && !right.get i) :=
  get_zipWith (f := (· && !·)) (fun _ _ j hj ↦ by simp [hj]) rfl h i

end

theorem count_eq_card (bits : Bitmap) :
    bits.count = ((Finset.range (64 * bits.length)).filter fun i ↦ bits.get i).card := by
  rw [Finset.card_filter]
  induction bits with
  | nil => simp [count]
  | cons word rest ih =>
    have hlen : 64 * (word :: rest).length = 64 + 64 * rest.length := by
      simp
      ring
    have hfirst : ∑ i ∈ Finset.range 64, (if get (word :: rest) i = true then 1 else 0) =
        countOnes word := by
      rw [countOnes, Finset.card_filter]
      apply Finset.sum_congr rfl
      intro i hi
      rw [get_cons_lt word rest (Finset.mem_range.mp hi)]
    rw [hlen, Finset.sum_range_add, hfirst]
    simp only [get_cons_add]
    rw [← ih]
    simp [count]

theorem count_congr (hlength : left.length = right.length) (hget : ∀ i, left.get i = right.get i) :
    left.count = right.count := by
  rw [count_eq_card, count_eq_card, hlength]
  simp only [hget]

theorem count_set (hi : i / 64 < bits.length) (hunset : bits.get i = false) :
    (bits.set i).count = bits.count + 1 := by
  have hinsert : (Finset.range (64 * bits.length)).filter (fun j ↦ (bits.set i).get j) =
      insert i ((Finset.range (64 * bits.length)).filter fun j ↦ bits.get j) := by
    ext j
    simp only [Finset.mem_filter, Finset.mem_range, Finset.mem_insert, get_set hi, Bool.or_eq_true,
      decide_eq_true_eq]
    constructor
    · rintro ⟨hj, rfl | hbit⟩
      · exact Or.inl rfl
      · exact Or.inr ⟨hj, hbit⟩
    · rintro (rfl | ⟨hj, hbit⟩)
      · exact ⟨by omega, Or.inl rfl⟩
      · exact ⟨hj, Or.inr hbit⟩
  rw [count_eq_card, count_eq_card, length_set, hinsert, Finset.card_insert_of_notMem]
  simp [hunset]

/-- Among fewer set bits than `n` positions there is an unset position. -/
theorem exists_unset_of_count_lt {n : ℕ} (h : bits.count < n) (hn : n ≤ 64 * bits.length) :
    ∃ i < n, bits.get i = false := by
  by_contra hnone
  have hsub : Finset.range n ⊆ (Finset.range (64 * bits.length)).filter fun i ↦ bits.get i := by
    intro i hi
    have hin := Finset.mem_range.mp hi
    refine Finset.mem_filter.mpr ⟨Finset.mem_range.mpr (by omega), ?_⟩
    by_contra hunset
    exact hnone ⟨i, hin, by simpa using hunset⟩
  have hcard := Finset.card_le_card hsub
  rw [Finset.card_range, ← count_eq_card] at hcard
  omega

theorem get_eq_false_of_count_eq_zero (h : bits.count = 0) (i : ℕ) : bits.get i = false := by
  by_cases hi : i / 64 < bits.length
  · by_contra hset
    have hmem : i ∈ (Finset.range (64 * bits.length)).filter fun i ↦ bits.get i :=
      Finset.mem_filter.mpr ⟨Finset.mem_range.mpr (by omega), by simpa using hset⟩
    rw [count_eq_card, Finset.card_eq_zero] at h
    simp [h] at hmem
  · exact get_eq_false_of_length_le (not_lt.mp hi)

@[simp]
theorem count_zeros : (zeros words).count = 0 := by
  rw [count_eq_card]
  simp

theorem mem_indicesFrom {k : ℕ} :
    i ∈ indicesFrom k bits ↔ k * 64 ≤ i ∧ bits.get (i - k * 64) = true := by
  induction bits generalizing k with
  | nil => simp [indicesFrom, get]
  | cons word rest ih =>
    rw [indicesFrom, List.mem_append, List.mem_map, ih]
    constructor
    · rintro (⟨bit, hbit, rfl⟩ | ⟨hle, hbit⟩)
      · refine ⟨Nat.le_add_right _ _, ?_⟩
        rw [Nat.add_sub_cancel_left, get_cons_lt word rest (lt_of_mem_setBits hbit)]
        exact mem_setBits.mp hbit
      · refine ⟨by omega, ?_⟩
        rwa [show i - k * 64 = 64 + (i - (k + 1) * 64) by omega, get_cons_add]
    · rintro ⟨hle, hbit⟩
      by_cases hlt : i - k * 64 < 64
      · rw [get_cons_lt word rest hlt] at hbit
        exact Or.inl ⟨i - k * 64, mem_setBits.mpr hbit, by omega⟩
      · rw [show i - k * 64 = 64 + (i - (k + 1) * 64) by omega, get_cons_add] at hbit
        exact Or.inr ⟨by omega, hbit⟩

theorem mem_indices : i ∈ bits.indices ↔ bits.get i = true := by
  simp [indices, mem_indicesFrom]

theorem nodup_indices (bits : Bitmap) : bits.indices.Nodup := by
  unfold indices
  generalize 0 = k
  induction bits generalizing k with
  | nil => exact List.nodup_nil
  | cons word rest ih =>
    rw [indicesFrom, List.nodup_append]
    refine ⟨?_, ih (k + 1), ?_⟩
    · exact (nodup_setBits word).map fun a b hab ↦ by simpa using hab
    · intro a ha b hb
      obtain ⟨bit, hbit, rfl⟩ := List.mem_map.mp ha
      have hlt := lt_of_mem_setBits hbit
      have hle := (mem_indicesFrom.mp hb).1
      omega

theorem length_indices (bits : Bitmap) : bits.indices.length = bits.count := by
  unfold indices
  generalize 0 = k
  induction bits generalizing k with
  | nil => rfl
  | cons word rest ih =>
    rw [indicesFrom, List.length_append, List.length_map, length_setBits, ih]
    simp [count]

end Bitmap

end Pon
