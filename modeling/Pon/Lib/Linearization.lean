import Mathlib.Data.Fintype.EquivFin
import Mathlib.Order.WellFounded

/-!
# Merging of sequences

Sequences are merged by taking, again and again, a head of one of them that is in the tail of none. The
merge gets stuck exactly when the orders of the sequences contradict each other, whichever heads it
takes, and what it gives keeps the order of every sequence.
-/

namespace Pon.Linearization

variable {α : Type*} {seqs : List (List α)} {seq order : List α} {a b c : α}

/-- One of the sequences has `a` before `b`. A sequence with a repeated element has it before itself. -/
def Precedes (seqs : List (List α)) (a b : α) : Prop :=
  ∃ seq ∈ seqs, List.Sublist [a, b] seq

/-- The union of the orders has no cycle. -/
def Consistent (seqs : List (List α)) : Prop :=
  ∀ a, ¬Relation.TransGen (Precedes seqs) a a

/-- The head of a sequence that is in no tail. -/
structure Free (seqs : List (List α)) (c : α) : Prop where
  head : ∃ seq ∈ seqs, seq.head? = some c
  tail : ∀ seq ∈ seqs, c ∉ seq.tail

section Drop

variable [DecidableEq α]

def dropHead (c : α) (seq : List α) : List α :=
  if seq.head? = some c then seq.tail else seq

theorem dropHead_sublist (c : α) (seq : List α) : List.Sublist (dropHead c seq) seq := by
  unfold dropHead
  split
  · exact List.tail_sublist seq
  · exact List.Sublist.refl seq

theorem dropHead_cons_of_ne {head : α} (h : head ≠ c) (rest : List α) :
    dropHead c (head :: rest) = head :: rest :=
  if_neg fun heq ↦ h (Option.some.inj heq)

theorem dropHead_cons_self (c : α) (rest : List α) : dropHead c (c :: rest) = rest :=
  if_pos rfl

theorem dropHead_nil (c : α) : dropHead c [] = [] :=
  if_neg (by simp)

/-- An element in no tail is taken out of a sequence, and nothing else is. -/
theorem mem_dropHead (h : c ∉ seq.tail) : a ∈ dropHead c seq ↔ a ∈ seq ∧ a ≠ c := by
  cases seq with
  | nil => simp [dropHead_nil]
  | cons head rest =>
    have hrest : c ∉ rest := h
    by_cases hhead : head = c
    · subst hhead
      rw [dropHead_cons_self, List.mem_cons]
      constructor
      · intro ha
        exact ⟨.inr ha, fun heq ↦ hrest (heq ▸ ha)⟩
      · rintro ⟨rfl | ha, hne⟩
        · exact absurd rfl hne
        · exact ha
    · rw [dropHead_cons_of_ne hhead]
      constructor
      · intro ha
        refine ⟨ha, ?_⟩
        rintro rfl
        exact (List.mem_cons.mp ha).elim (fun heq ↦ hhead heq.symm) hrest
      · exact And.left

theorem sublist_cons_dropHead (c : α) (seq : List α) (h : List.Sublist (dropHead c seq) order) :
    List.Sublist seq (c :: order) := by
  cases seq with
  | nil => exact List.nil_sublist _
  | cons head rest =>
    by_cases hhead : head = c
    · subst hhead
      rw [dropHead_cons_self] at h
      exact h.cons_cons head
    · rw [dropHead_cons_of_ne hhead] at h
      exact h.cons c

theorem Precedes.of_dropHead (h : Precedes (seqs.map (dropHead c)) a b) : Precedes seqs a b := by
  obtain ⟨_, hmem, hsub⟩ := h
  obtain ⟨seq, hseq, rfl⟩ := List.mem_map.mp hmem
  exact ⟨seq, hseq, hsub.trans (dropHead_sublist c seq)⟩

theorem Consistent.dropHead (h : Consistent seqs) (c : α) : Consistent (seqs.map (dropHead c)) :=
  fun a hcycle ↦ h a (Relation.TransGen.mono (fun _ _ ↦ Precedes.of_dropHead) _ _ hcycle)

/-- `order` is a merge of the sequences. -/
inductive Merges : List (List α) → List α → Prop
  | done {seqs : List (List α)} (h : ∀ seq ∈ seqs, seq = []) : Merges seqs []
  | next {seqs : List (List α)} {c : α} {order : List α} (hfree : Free seqs c)
      (h : Merges (seqs.map (dropHead c)) order) : Merges seqs (c :: order)

theorem Merges.mem_iff (h : Merges seqs order) : a ∈ order ↔ ∃ seq ∈ seqs, a ∈ seq := by
  induction h with
  | done hempty =>
    simp only [List.not_mem_nil, false_iff, not_exists, not_and]
    intro seq hseq
    rw [hempty seq hseq]
    exact List.not_mem_nil
  | @next seqs c order hfree _ ih =>
    have hdrop : (∃ seq ∈ seqs.map (dropHead c), a ∈ seq) ↔ ∃ seq ∈ seqs, a ∈ seq ∧ a ≠ c := by
      simp only [List.mem_map, exists_exists_and_eq_and]
      exact exists_congr fun seq ↦ and_congr_right fun hseq ↦ mem_dropHead (hfree.tail seq hseq)
    rw [List.mem_cons, ih, hdrop]
    constructor
    · rintro (rfl | ⟨seq, hseq, ha, -⟩)
      · obtain ⟨seq, hseq, hhead⟩ := hfree.head
        exact ⟨seq, hseq, List.mem_of_head? hhead⟩
      · exact ⟨seq, hseq, ha⟩
    · rintro ⟨seq, hseq, ha⟩
      by_cases heq : a = c
      · exact .inl heq
      · exact .inr ⟨seq, hseq, ha, heq⟩

theorem Merges.nodup (h : Merges seqs order) : order.Nodup := by
  induction h with
  | done => exact List.nodup_nil
  | @next seqs c order hfree hmerges ih =>
    refine List.nodup_cons.mpr ⟨fun hmem ↦ ?_, ih⟩
    obtain ⟨_, hdrop, hc⟩ := hmerges.mem_iff.mp hmem
    obtain ⟨seq, hseq, rfl⟩ := List.mem_map.mp hdrop
    exact ((mem_dropHead (hfree.tail seq hseq)).mp hc).2 rfl

/-- A merge keeps the order of every sequence. -/
theorem Merges.sublist (h : Merges seqs order) (hseq : seq ∈ seqs) : List.Sublist seq order := by
  induction h generalizing seq with
  | done hempty =>
    rw [hempty seq hseq]
  | @next seqs c order _ _ ih =>
    exact sublist_cons_dropHead c seq (ih (List.mem_map_of_mem hseq))

/-- In a list without repetitions an element that comes before another has the smaller position. -/
theorem idxOf_lt_of_sublist (hnodup : order.Nodup) (h : List.Sublist [a, b] order) :
    order.idxOf a < order.idxOf b := by
  induction order with
  | nil => cases h
  | cons head rest ih =>
    obtain ⟨hfresh, hrest⟩ := List.nodup_cons.mp hnodup
    cases h with
    | cons _ hsub =>
      have ha : a ≠ head := fun heq ↦ hfresh (heq ▸ hsub.subset (by simp))
      have hb : b ≠ head := fun heq ↦ hfresh (heq ▸ hsub.subset (by simp))
      rw [List.idxOf_cons_ne _ ha.symm, List.idxOf_cons_ne _ hb.symm]
      exact Nat.succ_lt_succ (ih hrest hsub)
    | cons_cons _ hsub =>
      have hb : b ≠ a := fun heq ↦ hfresh (heq ▸ hsub.subset (by simp))
      rw [List.idxOf_cons_self, List.idxOf_cons_ne _ hb.symm]
      exact Nat.succ_pos _

theorem Merges.consistent (h : Merges seqs order) : Consistent seqs := by
  have hlt : ∀ a b, Relation.TransGen (Precedes seqs) a b → order.idxOf a < order.idxOf b := by
    intro a b hpath
    have hone {a b : α} (hab : Precedes seqs a b) : order.idxOf a < order.idxOf b := by
      obtain ⟨seq, hseq, hsub⟩ := hab
      exact idxOf_lt_of_sublist h.nodup (hsub.trans (h.sublist hseq))
    induction hpath with
    | single hab => exact hone hab
    | tail _ hbc ih => exact ih.trans (hone hbc)
  exact fun a hcycle ↦ (hlt a a hcycle).false

end Drop

/-- The elements that can be taken next. -/
def heads (seqs : List (List α)) : List α :=
  seqs.filterMap List.head?

theorem mem_heads : a ∈ heads seqs ↔ ∃ seq ∈ seqs, seq.head? = some a := by
  rw [heads, List.mem_filterMap]

/-- Some head is free as long as the orders are consistent. -/
theorem Consistent.exists_free (h : Consistent seqs) (hseq : ∃ seq ∈ seqs, seq ≠ []) :
    ∃ c, Free seqs c := by
  let before (a b : { a // a ∈ heads seqs }) : Prop := Relation.TransGen (Precedes seqs) a.val b.val
  have htrans : IsTrans _ before := ⟨fun _ _ _ ↦ Relation.TransGen.trans⟩
  have hirrefl : Std.Irrefl before := ⟨fun a ↦ h a.val⟩
  have hfinite : Finite { a // a ∈ heads seqs } := by
    classical infer_instance
  have hwf : WellFounded before := Finite.wellFounded_of_trans_of_irrefl before
  obtain ⟨head, hhead⟩ : ∃ head, head ∈ heads seqs := by
    obtain ⟨seq, hmem, hne⟩ := hseq
    obtain ⟨head, rest, rfl⟩ := List.exists_cons_of_ne_nil hne
    exact ⟨head, mem_heads.mpr ⟨_, hmem, rfl⟩⟩
  -- The first of the heads in the union of the orders is in no tail.
  obtain ⟨⟨c, hc⟩, -, hmin⟩ := hwf.has_min Set.univ ⟨⟨head, hhead⟩, trivial⟩
  refine ⟨c, mem_heads.mp hc, fun seq hmem htail ↦ ?_⟩
  cases seq with
  | nil => cases htail
  | cons first rest =>
    have hfirst : first ∈ heads seqs := mem_heads.mpr ⟨_, hmem, rfl⟩
    have hprecedes : Precedes seqs first c :=
      ⟨_, hmem, (List.singleton_sublist.mpr htail).cons_cons first⟩
    exact hmin ⟨first, hfirst⟩ trivial (.single hprecedes)

end Pon.Linearization
