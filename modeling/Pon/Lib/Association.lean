import Mathlib.Data.List.Perm.Lattice

/-!
# Association lists

What a lookup of many keys finds in a list of pairs with distinct keys: every pair whose key is asked
for, once.
-/

namespace Pon.Association

variable {α K V : Type*}

/-- When at most one of two functions has a value, their values are those of one and the other. -/
theorem filterMap_or_perm {f g : α → Option V} {l : List α}
    (h : ∀ x ∈ l, f x = none ∨ g x = none) :
    (l.filterMap fun x ↦ (f x).or (g x)).Perm (l.filterMap f ++ l.filterMap g) := by
  induction l with
  | nil => exact List.Perm.refl _
  | cons x rest ih =>
    have hrest := ih fun y hy ↦ h y (List.mem_cons_of_mem _ hy)
    rcases h x List.mem_cons_self with hf | hg
    · cases hg : g x with
      | none => simpa [hf, hg] using hrest
      | some value =>
        simp only [List.filterMap_cons, hf, hg, Option.none_or]
        exact (hrest.cons value).trans List.perm_middle.symm
    · cases hf : f x with
      | none => simpa [hf, hg] using hrest
      | some value =>
        simp only [List.filterMap_cons, hf, hg, Option.or_none, List.cons_append]
        exact hrest.cons value

variable [DecidableEq K]

variable {pairs : List (K × V)}

theorem lookup_cons_of_ne {key key' : K} {value : V} (h : key' ≠ key) :
    ((key, value) :: pairs).lookup key' = pairs.lookup key' := by
  rw [List.lookup_cons, beq_false_of_ne h]

theorem lookup_eq_none {key : K} (h : key ∉ pairs.map Prod.fst) : pairs.lookup key = none := by
  rw [List.lookup_eq_none_iff]
  intro pair hpair
  simpa using fun heq : key = pair.1 ↦ h (List.mem_map.mpr ⟨pair, hpair, heq.symm⟩)

/-- Looking up distinct keys finds exactly the pairs with these keys. -/
theorem filterMap_lookup_perm {keys : List K} (hkeys : keys.Nodup)
    (hpairs : (pairs.map Prod.fst).Nodup) :
    (keys.filterMap fun key ↦ pairs.lookup key).Perm
      ((pairs.filter fun pair ↦ pair.1 ∈ keys).map Prod.snd) := by
  induction pairs with
  | nil => simp
  | cons pair rest ih =>
    obtain ⟨key, value⟩ := pair
    rw [List.map_cons, List.nodup_cons] at hpairs
    have hrest := ih hpairs.2
    by_cases hmem : key ∈ keys
    · have hperm := List.perm_cons_erase hmem
      have hne : ∀ other ∈ keys.erase key, other ≠ key := fun other hother heq ↦
        (List.Nodup.not_mem_erase hkeys) (heq ▸ hother)
      have herase : (keys.erase key).filterMap (fun other ↦ ((key, value) :: rest).lookup other) =
          (keys.erase key).filterMap fun other ↦ rest.lookup other :=
        List.filterMap_congr fun other hother ↦ lookup_cons_of_ne (hne other hother)
      have hothers : (keys.filterMap fun other ↦ rest.lookup other).Perm
          ((keys.erase key).filterMap fun other ↦ rest.lookup other) := by
        refine (hperm.filterMap _).trans ?_
        rw [List.filterMap_cons, lookup_eq_none hpairs.1]
      have hfilter : (((key, value) :: rest).filter fun pair ↦ pair.1 ∈ keys) =
          (key, value) :: rest.filter fun pair ↦ pair.1 ∈ keys := by
        rw [List.filter_cons_of_pos (by simpa using hmem)]
      refine (hperm.filterMap _).trans ?_
      rw [List.filterMap_cons, List.lookup_cons_self, herase, hfilter, List.map_cons]
      exact (hothers.symm.trans hrest).cons value
    · have hsame : (keys.filterMap fun other ↦ ((key, value) :: rest).lookup other) =
          keys.filterMap fun other ↦ rest.lookup other :=
        List.filterMap_congr fun other hother ↦ lookup_cons_of_ne fun heq ↦ hmem (heq ▸ hother)
      have hfilter : (((key, value) :: rest).filter fun pair ↦ pair.1 ∈ keys) =
          rest.filter fun pair ↦ pair.1 ∈ keys := by
        rw [List.filter_cons_of_neg (by simpa using hmem)]
      rw [hsame, hfilter]
      exact hrest

end Pon.Association
