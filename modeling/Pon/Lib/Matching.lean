import Mathlib.Data.List.Perm.Basic

/-!
# Matchings of lists

Two lists of representatives are compared by looking up each element of the first in the second.
When no element of the second list can answer for two elements of the first, the answers are
different elements, and for lists of equal length they exhaust the second list.
-/

namespace Pon.Matching

variable {α : Type*} {rel : α → α → Prop}

variable {left right : List α}

theorem forall₂_imp_of_mem {rel' : α → α → Prop} (h : List.Forall₂ rel left right)
    (himp : ∀ x ∈ left, ∀ y ∈ right, rel x y → rel' x y) :
    List.Forall₂ rel' left right := by
  induction h with
  | nil => exact List.Forall₂.nil
  | cons hxy _ ih =>
    apply List.Forall₂.cons (himp _ (by simp) _ (by simp) hxy)
    exact ih fun x hx y hy ↦ himp x (by simp [hx]) y (by simp [hy])

theorem forall₂_trans {middle : List α} (h : List.Forall₂ rel left middle)
    (h' : List.Forall₂ rel middle right)
    (htrans : ∀ x ∈ left, ∀ y ∈ middle, ∀ z ∈ right, rel x y → rel y z → rel x z) :
    List.Forall₂ rel left right := by
  induction h generalizing right with
  | nil => exact h'
  | cons hxy _ ih =>
    cases h' with
    | cons hyz hrest =>
      apply List.Forall₂.cons (htrans _ (by simp) _ (by simp) _ (by simp) hxy hyz)
      exact ih hrest fun x hx y hy z hz ↦ htrans x (by simp [hx]) y (by simp [hy]) z (by simp [hz])

/-- Every member of the second list answers some member of the first. -/
theorem exists_of_forall₂ (h : List.Forall₂ rel left right) {y : α} (hy : y ∈ right) :
    ∃ x ∈ left, rel x y := by
  induction h with
  | nil => simp at hy
  | cons hxy _ ih =>
    rcases List.mem_cons.mp hy with rfl | hmem
    · exact ⟨_, by simp, hxy⟩
    · obtain ⟨x, hx, hrel⟩ := ih hmem
      exact ⟨x, by simp [hx], hrel⟩

section

variable (hseparate : left.Pairwise fun x y ↦ ∀ z ∈ right, rel x z → ¬ rel y z)
include hseparate

/-- Answers from `right` to the elements of `left` can be chosen along a sublist of a reordering of
`right`. -/
theorem exists_matching (hanswer : ∀ x ∈ left, ∃ z ∈ right, rel x z) :
    ∃ answers rest, (answers ++ rest).Perm right ∧ List.Forall₂ rel left answers := by
  classical
  induction left generalizing right with
  | nil => exact ⟨[], right, List.Perm.refl _, List.Forall₂.nil⟩
  | cons x left ih =>
    obtain ⟨hx, hleft⟩ := List.pairwise_cons.mp hseparate
    obtain ⟨z, hz, hrel⟩ := hanswer x (by simp)
    have hperm : (z :: right.erase z).Perm right := (List.perm_cons_erase hz).symm
    obtain ⟨answers, rest, hanswers, hforall⟩ := ih
      (hleft.imp fun h z' hz' ↦ h z' (List.mem_of_mem_erase hz'))
      (by
        intro y hy
        obtain ⟨w, hw, hrelw⟩ := hanswer y (by simp [hy])
        rcases List.mem_cons.mp (hperm.mem_iff.mpr hw) with rfl | hmem
        · exact absurd hrelw (hx y hy w hw hrel)
        · exact ⟨w, hmem, hrelw⟩)
    exact ⟨z :: answers, rest, (List.Perm.cons z hanswers).trans hperm, List.Forall₂.cons hrel hforall⟩

theorem length_le_of_matching
    (hanswer : ∀ x ∈ left, ∃ z ∈ right, rel x z) : left.length ≤ right.length := by
  obtain ⟨answers, rest, hperm, hforall⟩ := exists_matching hseparate hanswer
  calc
    left.length = answers.length := hforall.length_eq
    _ ≤ (answers ++ rest).length := by simp
    _ = right.length := hperm.length_eq

end

/-- For lists of equal length the answers are a reordering of the second list. -/
theorem exists_perm_forall₂ (hlength : left.length = right.length)
    (hseparate : left.Pairwise fun x y ↦ ∀ z ∈ right, rel x z → ¬ rel y z)
    (hanswer : ∀ x ∈ left, ∃ z ∈ right, rel x z) :
    ∃ answers, answers.Perm right ∧ List.Forall₂ rel left answers := by
  obtain ⟨answers, rest, hperm, hforall⟩ := exists_matching hseparate hanswer
  have hrest : rest = [] := by
    have h₁ := hperm.length_eq
    have h₂ := hforall.length_eq
    rw [List.length_append] at h₁
    exact List.length_eq_zero_iff.mp (by omega)
  exact ⟨answers, by simpa [hrest] using hperm, hforall⟩

end Pon.Matching
