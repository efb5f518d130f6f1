import Mathlib.Data.List.Basic

/-!
# Merge sort by comparisons that may contradict each other

Merging asks whether the head of the right list comes before the head of the left one and takes the
left one otherwise. Whatever the answers are, the result is a permutation; when they follow a strict
weak order of the keys, the result is ordered and elements with equivalent keys stay in order.
-/

namespace Pon.MergeSort

variable {α : Type}

/-- What merging two lists can give, when `answer y x` are the possible answers to whether `y` comes
before `x`. -/
inductive Merges (answer : α → α → Bool → Prop) : List α → List α → List α → Prop
  | left (xs : List α) : Merges answer xs [] xs
  | right (ys : List α) : Merges answer [] ys ys
  | takeRight {x y xs ys zs} (before : answer y x true) (rest : Merges answer (x :: xs) ys zs) :
      Merges answer (x :: xs) (y :: ys) (y :: zs)
  | takeLeft {x y xs ys zs} (after : answer y x false) (rest : Merges answer xs (y :: ys) zs) :
      Merges answer (x :: xs) (y :: ys) (x :: zs)

/-- What sorting can give: short lists stay, other lists are split, sorted and merged. -/
inductive Sorts (answer : α → α → Bool → Prop) : List α → List α → Prop
  | short {xs} (length : xs.length ≤ 1) : Sorts answer xs xs
  | merge {xs xs' ys ys' zs} (first : Sorts answer xs xs') (second : Sorts answer ys ys')
      (merged : Merges answer xs' ys' zs) : Sorts answer (xs ++ ys) zs

variable {answer : α → α → Bool → Prop} {xs ys zs : List α}

theorem Merges.of_nil (h : xs = [] ∨ ys = []) : Merges answer xs ys (xs ++ ys) := by
  rcases h with rfl | rfl
  · exact .right ys
  · simpa using Merges.left xs

theorem Merges.perm (h : Merges answer xs ys zs) : zs.Perm (xs ++ ys) := by
  induction h with
  | left => simp
  | right => simp
  | takeRight _ _ ih => exact (ih.cons _).trans List.perm_middle.symm
  | takeLeft _ _ ih => exact ih.cons _

theorem Sorts.perm (h : Sorts answer xs zs) : zs.Perm xs := by
  induction h with
  | short => exact .refl _
  | merge _ _ merged ih ih' => exact merged.perm.trans (ih.append ih')

/-- The relation is a strict weak order on the elements of the list. -/
structure StrictWeakOn (r : α → α → Prop) (keys : List α) : Prop where
  asymm : ∀ a ∈ keys, ∀ b ∈ keys, r a b → ¬r b a
  split : ∀ a ∈ keys, ∀ b ∈ keys, ∀ c ∈ keys, r a c → r a b ∨ r b c

/-- The position comes first: its key is smaller, or the keys are equivalent and it is the earlier one. -/
def Before (r : ℕ → ℕ → Prop) (i j : ℕ) : Prop := r i j ∨ ¬r j i ∧ i < j

variable {r : ℕ → ℕ → Prop} {is js ks positions : List ℕ}

theorem Before.trans (order : StrictWeakOn r positions) {i j k : ℕ} (memI : i ∈ positions)
    (memJ : j ∈ positions) (memK : k ∈ positions) (h : Before r i j) (h' : Before r j k) :
    Before r i k := by
  have asymm := order.asymm
  have split := order.split
  rcases h with less | ⟨least, before⟩ <;> rcases h' with less' | ⟨least', before'⟩
  · rcases split i memI k memK j memJ less with found | found
    · exact .inl found
    · exact absurd found (asymm j memJ k memK less')
  · exact .inl ((split i memI k memK j memJ less).resolve_right least')
  · exact .inl ((split j memJ i memI k memK less').resolve_left least)
  · refine .inr ⟨fun less ↦ ?_, Nat.lt_trans before before'⟩
    exact (split k memK j memJ i memI less).elim least' least

theorem Merges.pairwise {answer : ℕ → ℕ → Bool → Prop} (h : Merges answer is js ks)
    (answers : ∀ i ∈ positions, ∀ j ∈ positions, ∀ b, answer j i b → (b = true ↔ r j i))
    (order : StrictWeakOn r positions) (subset : ∀ i ∈ is ++ js, i ∈ positions)
    (apart : ∀ i ∈ is, ∀ j ∈ js, i < j) (first : is.Pairwise (Before r))
    (second : js.Pairwise (Before r)) : ks.Pairwise (Before r) := by
  induction h with
  | left => exact first
  | right => exact second
  | @takeRight x y is js ks before rest ih =>
    obtain ⟨least, second⟩ := List.pairwise_cons.mp second
    have memX := subset x (by simp)
    have memY := subset y (by simp)
    have less : Before r y x := .inl ((answers x memX y memY _ before).mp rfl)
    refine List.pairwise_cons.mpr ⟨fun k mem ↦ ?_, ih (fun i mem ↦ subset i ?_)
      (fun i mem j mem' ↦ apart i mem j (List.mem_cons_of_mem _ mem')) first second⟩
    · rcases List.mem_append.mp (rest.perm.mem_iff.mp mem) with old | new
      · rcases List.mem_cons.mp old with rfl | old
        · exact less
        · exact less.trans order memY memX (subset k (by simp [old])) (List.rel_of_pairwise_cons first old)
      · exact least k new
    · simp only [List.mem_append, List.mem_cons] at mem ⊢
      tauto
  | @takeLeft x y is js ks after rest ih =>
    obtain ⟨least, first⟩ := List.pairwise_cons.mp first
    have memX := subset x (by simp)
    have memY := subset y (by simp)
    have notLess : ¬r y x := fun less ↦ nomatch (answers x memX y memY _ after).mpr less
    have less : Before r x y := .inr ⟨notLess, apart x (by simp) y (by simp)⟩
    refine List.pairwise_cons.mpr ⟨fun k mem ↦ ?_, ih (fun i mem ↦ subset i ?_)
      (fun i mem ↦ apart i (List.mem_cons_of_mem _ mem)) first second⟩
    · rcases List.mem_append.mp (rest.perm.mem_iff.mp mem) with old | new
      · exact least k old
      · rcases List.mem_cons.mp new with rfl | new
        · exact less
        · exact less.trans order memX memY (subset k (by simp [new])) (List.rel_of_pairwise_cons second new)
    · exact List.mem_append.mpr ((List.mem_append.mp mem).imp_left (List.mem_cons_of_mem _))

theorem Sorts.pairwise {answer : ℕ → ℕ → Bool → Prop} (h : Sorts answer is ks)
    (answers : ∀ i ∈ positions, ∀ j ∈ positions, ∀ b, answer j i b → (b = true ↔ r j i))
    (order : StrictWeakOn r positions) (subset : ∀ i ∈ is, i ∈ positions)
    (increasing : is.Pairwise (· < ·)) : ks.Pairwise (Before r) := by
  induction h with
  | @short is length =>
    match is, length with
    | [], _ => exact .nil
    | [i], _ => exact List.pairwise_singleton _ i
  | merge first second merged ih ih' =>
    obtain ⟨before, after, apart⟩ := List.pairwise_append.mp increasing
    refine merged.pairwise answers order (fun i mem ↦ subset i ?_) (fun i mem j mem' ↦ ?_)
      (ih (fun i mem ↦ subset i (List.mem_append_left _ mem)) before)
      (ih' (fun i mem ↦ subset i (List.mem_append_right _ mem)) after)
    · exact (first.perm.append second.perm).mem_iff.mp mem
    · exact apart i (first.perm.mem_iff.mp mem) j (second.perm.mem_iff.mp mem')

end Pon.MergeSort
