import Mathlib.Algebra.Order.BigOperators.Group.List
import Mathlib.Algebra.Order.Ring.Nat
import Pon.Lib.Linearization

/-!
# Method resolution order

The C3 linearization of a class. A type that has no linearization of its own, as static types, is
linearized along its leading bases up to `object`. Types are compared by their address.
-/

namespace Pon.Class

open Linearization

variable {Ty : Type}

/-- What the linearization reads of a type object. -/
inductive PyType (Ty : Type)
  | mk (address : Ty) (name : String) (tpMro : Option (List Ty)) (tpBase : Option (PyType Ty))

namespace PyType

def address : PyType Ty → Ty
  | mk address _ _ _ => address

def name : PyType Ty → String
  | mk _ name _ _ => name

/-- The type and its leading bases, up to a type that has none. -/
def leading : PyType Ty → List Ty × PyType Ty
  | mk address name tpMro none => ([address], mk address name tpMro none)
  | mk address _ _ (some base) => (address :: base.leading.1, base.leading.2)

end PyType

variable [DecidableEq Ty]

/-- `object` where the terminal type does not reach it, if the runtime has it yet. -/
def implicitObjectBase (objectType : Option Ty) (terminal : PyType Ty) : Option Ty :=
  if terminal.name = "object" then none
  else
    match objectType with
    | none => none
    | some object => if object = terminal.address then none else some object

def mroEntries (objectType : Option Ty) : PyType Ty → List Ty
  | .mk _ _ (some entries) _ => entries
  | .mk address name none base =>
    let leading := (PyType.mk address name none base).leading
    leading.1 ++ (implicitObjectBase objectType leading.2).toList

/-- The search for a head that no sequence has in its tail. -/
def findCandidate (sequences : List (List Ty)) : List (List Ty) → Option Ty
  | [] => none
  | [] :: seqs => findCandidate sequences seqs
  | (head :: _) :: seqs =>
    if sequences.any fun other ↦ decide (other.length > 1) && other.tail.contains head then
      findCandidate sequences seqs
    else
      some head

variable {sequences seqs : List (List Ty)}

theorem findCandidate_some {candidate : Ty}
    (h : findCandidate sequences seqs = some candidate) :
    (∃ seq ∈ seqs, seq.head? = some candidate) ∧ ∀ seq ∈ sequences, candidate ∉ seq.tail := by
  induction seqs with
  | nil => cases h
  | cons seq seqs ih =>
    cases seq with
    | nil =>
      obtain ⟨⟨seq, hmem, hhead⟩, htail⟩ := ih h
      exact ⟨⟨seq, List.mem_cons_of_mem _ hmem, hhead⟩, htail⟩
    | cons head rest =>
      rw [findCandidate] at h
      split at h
      · obtain ⟨⟨seq, hmem, hhead⟩, htail⟩ := ih h
        exact ⟨⟨seq, List.mem_cons_of_mem _ hmem, hhead⟩, htail⟩
      · rename_i hblocked
        obtain rfl := Option.some.inj h
        refine ⟨⟨_, List.mem_cons_self, rfl⟩, fun other hmem htail ↦ hblocked ?_⟩
        have hlong : other.length > 1 := by
          have hpos := List.length_pos_of_mem htail
          rw [List.length_tail] at hpos
          omega
        refine List.any_eq_true.mpr ⟨other, hmem, ?_⟩
        simp [hlong, htail]

theorem findCandidate_none (h : findCandidate sequences seqs = none)
    {head : Ty} (hhead : ∃ seq ∈ seqs, seq.head? = some head) :
    ∃ seq ∈ sequences, head ∈ seq.tail := by
  induction seqs with
  | nil =>
    obtain ⟨seq, hmem, -⟩ := hhead
    cases hmem
  | cons seq seqs ih =>
    obtain ⟨found, hmem, hfound⟩ := hhead
    cases seq with
    | nil =>
      rcases List.mem_cons.mp hmem with rfl | hmem
      · cases hfound
      · exact ih h ⟨found, hmem, hfound⟩
    | cons first rest =>
      rw [findCandidate] at h
      split at h
      · rename_i hblocked
        rcases List.mem_cons.mp hmem with rfl | hmem
        · obtain rfl := Option.some.inj hfound
          obtain ⟨other, hother, htail⟩ := List.any_eq_true.mp hblocked
          rw [Bool.and_eq_true, List.contains_iff_mem] at htail
          exact ⟨other, hother, htail.2⟩
        · exact ih h ⟨found, hmem, hfound⟩
      · cases h

/-- What is found is free, and nothing is found when nothing is. -/
theorem findCandidate_iff :
    (findCandidate sequences sequences).isSome = true ↔ ∃ candidate, Free sequences candidate := by
  constructor
  · intro h
    obtain ⟨candidate, hcandidate⟩ := Option.isSome_iff_exists.mp h
    exact ⟨candidate, ⟨(findCandidate_some hcandidate).1, (findCandidate_some hcandidate).2⟩⟩
  · rintro ⟨candidate, hfree⟩
    by_contra hnone
    obtain ⟨seq, hmem, htail⟩ := findCandidate_none (Option.not_isSome_iff_eq_none.mp hnone) hfree.head
    exact hfree.tail seq hmem htail

theorem length_dropHead_le (candidate : Ty) (seq : List Ty) :
    (dropHead candidate seq).length ≤ seq.length := (dropHead_sublist candidate seq).length_le

def removeCandidate (candidate : Ty) (sequences : List (List Ty)) : List (List Ty) :=
  sequences.map (dropHead candidate)

/-- A round takes at least the candidate out of the sequences. -/
theorem sum_length_removeCandidate_lt {candidate : Ty}
    (h : ∃ seq ∈ sequences, seq.head? = some candidate) :
    ((removeCandidate candidate sequences).map List.length).sum < (sequences.map List.length).sum := by
  rw [removeCandidate, List.map_map]
  refine List.sum_lt_sum _ _ (fun seq _ ↦ length_dropHead_le candidate seq) ?_
  obtain ⟨seq, hmem, hhead⟩ := h
  refine ⟨seq, hmem, ?_⟩
  obtain ⟨rest, rfl⟩ : ∃ rest, seq = candidate :: rest := List.head?_eq_some_iff.mp hhead
  rw [Function.comp_apply, dropHead_cons_self]
  exact Nat.lt_succ_self _

/-- The loop of `compute_c3_mro`. -/
def mergeLoop (result : List Ty) (sequences : List (List Ty)) : Except String (List Ty) :=
  if sequences.any fun seq ↦ !seq.isEmpty then
    match _ : findCandidate sequences sequences with
    | none => .error "Cannot create a consistent method resolution order"
    | some candidate => mergeLoop (result ++ [candidate]) (removeCandidate candidate sequences)
  else
    .ok result
termination_by (sequences.map List.length).sum
decreasing_by exact sum_length_removeCandidate_lt (findCandidate_some ‹_›).1

/-- What `compute_c3_mro` merges. -/
def precedenceOrders (objectType : Option Ty) (bases : List (PyType Ty)) : List (List Ty) :=
  bases.map (mroEntries objectType) ++ [bases.map PyType.address]

def computeC3Mro (objectType : Option Ty) (ty : Option Ty) (bases : List (Option (PyType Ty))) :
    Except String (List Ty) :=
  match ty with
  | none => .error "cannot compute MRO for NULL type"
  | some ty =>
    if bases.any Option.isNone then .error "class base is NULL"
    else mergeLoop [ty] (precedenceOrders objectType (bases.filterMap id))

theorem mergeLoop_ok {result merged : List Ty} (h : mergeLoop result sequences = .ok merged) :
    ∃ order, merged = result ++ order ∧ Merges sequences order := by
  induction result, sequences using mergeLoop.induct with
  | case1 result sequences hsome hcandidate =>
    rw [mergeLoop, if_pos hsome] at h
    split at h
    · cases h
    · rename_i hfound
      rw [hcandidate] at hfound
      cases hfound
  | case2 result sequences hsome candidate hcandidate ih =>
    rw [mergeLoop, if_pos hsome] at h
    split at h
    · cases h
    · rename_i found hfound
      obtain rfl := Option.some.inj (hcandidate.symm.trans hfound)
      obtain ⟨order, rfl, hmerges⟩ := ih h
      obtain ⟨hhead, htail⟩ := findCandidate_some hcandidate
      exact ⟨candidate :: order, List.append_assoc _ _ _, .next ⟨hhead, htail⟩ hmerges⟩
  | case3 result sequences hempty =>
    rw [mergeLoop, if_neg hempty] at h
    refine ⟨[], by rw [List.append_nil, Except.ok.inj h], .done fun seq hseq ↦ ?_⟩
    by_contra hne
    exact hempty (List.any_eq_true.mpr ⟨seq, hseq, by simpa using hne⟩)

/-- The merge of consistent orders does not get stuck. -/
theorem exists_mergeLoop (result : List Ty) (h : Consistent sequences) :
    ∃ merged, mergeLoop result sequences = .ok merged := by
  induction result, sequences using mergeLoop.induct with
  | case1 result sequences hsome hcandidate =>
    obtain ⟨seq, hmem, hne⟩ := List.any_eq_true.mp hsome
    have hfree := h.exists_free ⟨seq, hmem, by simpa using hne⟩
    have hfound := findCandidate_iff.mpr hfree
    rw [hcandidate] at hfound
    cases hfound
  | case2 result sequences hsome candidate hcandidate ih =>
    obtain ⟨merged, hmerged⟩ := ih (h.dropHead candidate)
    refine ⟨merged, ?_⟩
    rw [mergeLoop, if_pos hsome]
    split
    · rename_i hfound
      rw [hcandidate] at hfound
      cases hfound
    · rename_i found hfound
      obtain rfl := Option.some.inj (hcandidate.symm.trans hfound)
      exact hmerged
  | case3 result sequences hempty => exact ⟨result, by rw [mergeLoop, if_neg hempty]⟩

/-- A linearization that begins with its type and has no type twice. -/
structure ValidMro (objectType : Option Ty) (ty : PyType Ty) : Prop where
  head : (mroEntries objectType ty).head? = some ty.address
  nodup : (mroEntries objectType ty).Nodup

theorem computeC3Mro_some (objectType : Option Ty) (ty : Ty) (bases : List (PyType Ty)) :
    computeC3Mro objectType (some ty) (bases.map some) =
      mergeLoop [ty] (precedenceOrders objectType bases) := by
  have hsome : (bases.map some).any Option.isNone = false := by simp
  have hbases : (bases.map some).filterMap id = bases := by simp
  simp only [computeC3Mro, hsome, hbases, Bool.false_eq_true, if_false]

variable {objectType : Option Ty} {ty : Ty} {bases : List (PyType Ty)}

omit [DecidableEq Ty] in
theorem ValidMro.mem [DecidableEq Ty] {base : PyType Ty} (h : ValidMro objectType base) :
    base.address ∈ mroEntries objectType base :=
  List.mem_of_head? h.head

/-- The bases are the first types of their orders, so the list of bases adds no type. -/
theorem mem_precedenceOrders (hvalid : ∀ base ∈ bases, ValidMro objectType base) {c : Ty} :
    (∃ seq ∈ precedenceOrders objectType bases, c ∈ seq) ↔
      ∃ base ∈ bases, c ∈ mroEntries objectType base := by
  constructor
  · rintro ⟨seq, hseq, hc⟩
    rcases List.mem_append.mp hseq with hseq | hseq
    · obtain ⟨base, hbase, rfl⟩ := List.mem_map.mp hseq
      exact ⟨base, hbase, hc⟩
    · rw [List.mem_singleton.mp hseq] at hc
      obtain ⟨base, hbase, rfl⟩ := List.mem_map.mp hc
      exact ⟨base, hbase, (hvalid base hbase).mem⟩
  · rintro ⟨base, hbase, hc⟩
    exact ⟨_, List.mem_append_left _ (List.mem_map_of_mem hbase), hc⟩

/-- A linearization of `ty` over `bases`. -/
structure Linearizes (objectType : Option Ty) (ty : Ty) (bases : List (PyType Ty))
    (order : List Ty) : Prop where
  nodup : order.Nodup
  mem_iff : ∀ c, c ∈ order ↔ ∃ base ∈ bases, c ∈ mroEntries objectType base
  mro : ∀ base ∈ bases, List.Sublist (mroEntries objectType base) order
  /-- A class that is not among its own bases comes once as well. -/
  fresh : (∀ base ∈ bases, ty ∉ mroEntries objectType base) → (ty :: order).Nodup
  localOrder : List.Sublist (bases.map PyType.address) order

/-- `compute_c3_mro` succeeds exactly on consistent orders, with the class and a linearization. -/
theorem computeC3Mro_linearizes (ty : Ty) (hvalid : ∀ base ∈ bases, ValidMro objectType base) :
    ((∃ mro, computeC3Mro objectType (some ty) (bases.map some) = .ok mro) ↔
        Consistent (precedenceOrders objectType bases)) ∧
      ∀ mro, computeC3Mro objectType (some ty) (bases.map some) = .ok mro →
        ∃ order, mro = ty :: order ∧ Linearizes objectType ty bases order := by
  rw [computeC3Mro_some]
  constructor
  · constructor
    · rintro ⟨mro, hmro⟩
      obtain ⟨order, -, hmerges⟩ := mergeLoop_ok hmro
      exact hmerges.consistent
    · exact exists_mergeLoop [ty]
  · intro mro hmro
    obtain ⟨order, rfl, hmerges⟩ := mergeLoop_ok hmro
    have hmem (c : Ty) : c ∈ order ↔ ∃ base ∈ bases, c ∈ mroEntries objectType base :=
      hmerges.mem_iff.trans (mem_precedenceOrders hvalid)
    refine ⟨order, rfl, hmerges.nodup, hmem, fun base hbase ↦ ?_, fun hfresh ↦ ?_, ?_⟩
    · exact hmerges.sublist (List.mem_append_left _ (List.mem_map_of_mem hbase))
    · refine List.nodup_cons.mpr ⟨fun hty ↦ ?_, hmerges.nodup⟩
      obtain ⟨base, hbase, hmro⟩ := (hmem ty).mp hty
      exact hfresh base hbase hmro
    · exact hmerges.sublist (List.mem_append_right _ List.mem_cons_self)

def sampleObject : PyType ℕ := .mk 0 "object" none none

def sampleLeft : PyType ℕ :=
  .mk 2 "B" (some [2, 1, 0]) (some (.mk 1 "A" (some [1, 0]) (some sampleObject)))

def sampleRight : PyType ℕ :=
  .mk 3 "C" (some [3, 1, 0]) (some (.mk 1 "A" (some [1, 0]) (some sampleObject)))

theorem computeC3Mro_linearizes_diamond :
    computeC3Mro (some 0) (some 4) ([sampleLeft, sampleRight].map some) = .ok [4, 2, 3, 1, 0] ∧
      ∃ order, [4, 2, 3, 1, 0] = 4 :: order ∧
        Linearizes (some 0) 4 [sampleLeft, sampleRight] order := by
  have hvalid : ∀ base ∈ [sampleLeft, sampleRight], ValidMro (some 0) base := by
    intro base hbase
    rcases List.mem_pair.mp hbase with rfl | rfl
    · exact ⟨rfl, by decide⟩
    · exact ⟨rfl, by decide⟩
  have hmro : computeC3Mro (some 0) (some 4) ([sampleLeft, sampleRight].map some) =
      .ok [4, 2, 3, 1, 0] := by decide +kernel
  exact ⟨hmro, (computeC3Mro_linearizes 4 hvalid).2 _ hmro⟩

end Pon.Class
