import Mathlib.Data.Finset.Card

/-!
# Insertion-ordered finite sets

A finite set up to an equivalence, kept as the list of its representatives in the order in which
they were inserted. The representatives are pairwise inequivalent by construction, so the length of
the list is the cardinality of the set of classes.
-/

namespace Pon

structure OrderedSet (K : Type*) [Setoid K] where
  entries : List K
  distinct : entries.Pairwise fun a b ↦ ¬ a ≈ b

namespace OrderedSet

variable {K : Type*} [setoid : Setoid K]

variable {s t : OrderedSet K} {x : K}

@[ext]
theorem ext (h : s.entries = t.entries) : s = t := by
  cases s
  cases t
  cases h
  rfl

/-- An element belongs to the set when it is equivalent to one of the representatives. -/
instance : Membership K (OrderedSet K) where
  mem s x := ∃ entry ∈ s.entries, entry ≈ x

theorem mem_iff : x ∈ s ↔ ∃ entry ∈ s.entries, entry ≈ x :=
  Iff.rfl

theorem mem_of_mem_entries (h : x ∈ s.entries) : x ∈ s :=
  ⟨x, h, Setoid.refl x⟩

theorem mem_congr {y : K} (h : x ≈ y) : x ∈ s ↔ y ∈ s :=
  ⟨fun ⟨entry, hentry, heq⟩ ↦ ⟨entry, hentry, Setoid.trans heq h⟩,
    fun ⟨entry, hentry, heq⟩ ↦ ⟨entry, hentry, Setoid.trans heq (Setoid.symm h)⟩⟩

/-- The set of the classes that are represented. -/
def elements (s : OrderedSet K) : Finset (Quotient setoid) where
  val := ↑(s.entries.map (Quotient.mk setoid))
  nodup := by
    rw [Multiset.coe_nodup, List.nodup_iff_pairwise_ne, List.pairwise_map]
    exact s.distinct.imp fun hne heq ↦ hne (Quotient.exact heq)

@[simp]
theorem mk_mem_elements : Quotient.mk setoid x ∈ s.elements ↔ x ∈ s := by
  rw [elements, Finset.mem_mk, Multiset.mem_coe, List.mem_map]
  exact exists_congr fun _ ↦ and_congr_right fun _ ↦ Quotient.eq

theorem elements_subset : s.elements ⊆ t.elements ↔ ∀ x ∈ s.entries, x ∈ t := by
  constructor
  · intro h x hx
    exact mk_mem_elements.mp (h (mk_mem_elements.mpr (mem_of_mem_entries hx)))
  · intro h class_ hclass
    induction class_ using Quotient.inductionOn with
    | h x =>
      obtain ⟨entry, hentry, heq⟩ := mk_mem_elements.mp hclass
      exact mk_mem_elements.mpr ((mem_congr heq).mp (h entry hentry))

@[simp]
theorem card_elements (s : OrderedSet K) : s.elements.card = s.entries.length :=
  List.length_map _

/-- Two sets of the same size are equal when one is included in the other. -/
theorem elements_eq_iff :
    s.elements = t.elements ↔ s.entries.length = t.entries.length ∧ s.elements ⊆ t.elements := by
  constructor
  · intro h
    refine ⟨?_, h.subset⟩
    rw [← card_elements, ← card_elements, h]
  · rintro ⟨hlen, hsub⟩
    apply Finset.eq_of_subset_of_card_le hsub
    rw [card_elements, card_elements, hlen]

/-- An inclusion is strict when the sizes differ. -/
theorem elements_ssubset_iff :
    s.elements ⊂ t.elements ↔ s.entries.length < t.entries.length ∧ s.elements ⊆ t.elements := by
  constructor
  · intro h
    refine ⟨?_, h.subset⟩
    rw [← card_elements, ← card_elements]
    exact Finset.card_lt_card h
  · rintro ⟨hlen, hsub⟩
    refine hsub.ssubset_of_ne fun heq ↦ ?_
    rw [← card_elements, ← card_elements, heq] at hlen
    exact lt_irrefl _ hlen

def empty : OrderedSet K where
  entries := []
  distinct := List.Pairwise.nil

/-- A representative keeps its place when others are taken away. -/
def filter (p : K → Bool) (s : OrderedSet K) : OrderedSet K where
  entries := s.entries.filter p
  distinct := s.distinct.filter p

/-- The first representative in insertion order is taken away. -/
def dropFirst (s : OrderedSet K) : OrderedSet K where
  entries := s.entries.tail
  distinct := s.distinct.sublist (List.tail_sublist _)

variable [∀ a b : K, Decidable (a ≈ b)]

instance (s : OrderedSet K) (x : K) : Decidable (x ∈ s) :=
  inferInstanceAs (Decidable (∃ entry ∈ s.entries, entry ≈ x))

/-- A new element is appended; an element that is present keeps its representative. -/
def add (s : OrderedSet K) (x : K) : OrderedSet K :=
  if h : x ∈ s then
    s
  else
    { entries := s.entries ++ [x]
      distinct := by
        refine List.pairwise_append.mpr ⟨s.distinct, List.pairwise_singleton _ _, ?_⟩
        intro entry hentry y hy heq
        exact h ⟨entry, hentry, List.mem_singleton.mp hy ▸ heq⟩ }

theorem add_of_mem (h : x ∈ s) : s.add x = s :=
  dif_pos h

theorem entries_add_of_not_mem (h : x ∉ s) : (s.add x).entries = s.entries ++ [x] := by
  rw [add, dif_neg h]

def addAll (s : OrderedSet K) (items : List K) : OrderedSet K :=
  items.foldl add s

/-- Adding the elements of a second set that shares none appends its representatives. -/
theorem entries_addAll_of_disjoint {items : List K} (hdistinct : items.Pairwise fun a b ↦ ¬ a ≈ b)
    (hfresh : ∀ x ∈ items, x ∉ s) :
    (s.addAll items).entries = s.entries ++ items := by
  induction items generalizing s with
  | nil => simp [addAll]
  | cons x rest ih =>
    obtain ⟨hx, hrest⟩ := List.pairwise_cons.mp hdistinct
    have hadd := entries_add_of_not_mem (hfresh x (by simp))
    have hfresh' : ∀ y ∈ rest, y ∉ s.add x := by
      rintro y hy ⟨entry, hentry, heq⟩
      rw [hadd, List.mem_append, List.mem_singleton] at hentry
      rcases hentry with hold | rfl
      · exact hfresh y (by simp [hy]) ⟨entry, hold, heq⟩
      · exact hx y hy heq
    calc
      (s.addAll (x :: rest)).entries = ((s.add x).addAll rest).entries := rfl
      _ = s.entries ++ x :: rest := by rw [ih hrest hfresh', hadd, List.append_assoc]; rfl

/-- The representative of `x` is taken away. -/
def remove (s : OrderedSet K) (x : K) : OrderedSet K where
  entries := s.entries.eraseP fun entry ↦ entry ≈ x
  distinct := s.distinct.sublist List.eraseP_sublist

theorem remove_of_not_mem (h : x ∉ s) : s.remove x = s := by
  apply ext
  apply List.eraseP_of_forall_not
  intro entry hentry heq
  exact h ⟨entry, hentry, of_decide_eq_true heq⟩

/-- The representatives before and after the one of `x`. -/
theorem entries_remove_of_split {entry : K} {before after : List K}
    (hsplit : s.entries = before ++ entry :: after) (heq : entry ≈ x) :
    (s.remove x).entries = before ++ after := by
  have hdistinct := s.distinct
  rw [hsplit, List.pairwise_append] at hdistinct
  have hbefore : ∀ other ∈ before, ¬ other ≈ x := fun other hother hx ↦
    hdistinct.2.2 other hother entry (by simp) (Setoid.trans hx (Setoid.symm heq))
  calc
    (s.remove x).entries = (before ++ entry :: after).eraseP fun entry ↦ entry ≈ x := by
          rw [← hsplit]; rfl
    _ = before ++ after := by
          rw [List.eraseP_append_right _ (by simpa using hbefore),
            List.eraseP_cons_of_pos (by simpa using heq)]

def union (s t : OrderedSet K) : OrderedSet K :=
  s.addAll t.entries

def inter (s t : OrderedSet K) : OrderedSet K :=
  s.filter fun x ↦ x ∈ t

def diff (s t : OrderedSet K) : OrderedSet K :=
  s.filter fun x ↦ x ∉ t

/-- The elements of the first set that the second lacks, and then the other way round. -/
def symmDiff (s t : OrderedSet K) : OrderedSet K where
  entries := (s.diff t).entries ++ (t.diff s).entries
  distinct := by
    refine List.pairwise_append.mpr ⟨(s.diff t).distinct, (t.diff s).distinct, ?_⟩
    intro x hx y hy heq
    have hxs : x ∈ s.entries := (List.mem_filter.mp hx).1
    have hys : y ∉ s := of_decide_eq_true (List.mem_filter.mp hy).2
    exact hys ⟨x, hxs, heq⟩

end OrderedSet

end Pon
