import Mathlib.Data.List.Basic
import Mathlib.Data.Nat.Find

/-!
# Linear-probing index tables

A table of optional indices in which index `i` is searched from the bucket `home i` onwards, one
bucket after the other and around the end, until a vacant bucket stops the search. The invariant
`Indexed` says that the table holds the indices below `n`, each exactly once, and that a search
never stops before it has met the index it looks for. It is parametric in the home positions, so it
serves any key type and any hash function.
-/

namespace Pon.Probing

/-- The bucket visited after `d` steps of a search that starts at `home`. -/
def slot (size home d : ℕ) : ℕ :=
  (home + d) % size

theorem slot_lt {size : ℕ} (hsize : 0 < size) (home d : ℕ) : slot size home d < size :=
  Nat.mod_lt _ hsize

/-- Every bucket is visited by the first `size` steps of a search. -/
theorem exists_slot_eq {size p : ℕ} (hp : p < size) (home : ℕ) :
    ∃ d < size, slot size home d = p := by
  have hhome : home % size < size := Nat.mod_lt _ (by omega)
  refine ⟨(p + (size - home % size)) % size, Nat.mod_lt _ (by omega), ?_⟩
  calc
    slot size home ((p + (size - home % size)) % size)
        = (home % size + (p + (size - home % size))) % size := by
          simp only [slot, Nat.add_mod, Nat.mod_mod]
    _ = (p + size) % size := by
          congr 1
          omega
    _ = p := by
          rw [Nat.add_mod_right, Nat.mod_eq_of_lt hp]

/-- The first vacant bucket of the search from `home` is found after `d` steps. -/
structure FirstVacant (table : List (Option ℕ)) (home d : ℕ) : Prop where
  lt : d < table.length
  vacant : table[slot table.length home d]? = some none
  before : ∀ e < d, table[slot table.length home e]? ≠ some none

variable {table : List (Option ℕ)} {home : ℕ → ℕ} {d n : ℕ}

theorem FirstVacant.exists_index {home c : ℕ} (h : FirstVacant table home d) (hc : c < d) :
    ∃ i, table[slot table.length home c]? = some (some i) := by
  have hlt : slot table.length home c < table.length := slot_lt (Nat.zero_lt_of_lt h.lt) _ _
  have hne := h.before c hc
  rw [List.getElem?_eq_getElem hlt] at hne ⊢
  cases hget : table[slot table.length home c] with
  | none => exact absurd (congrArg some hget) hne
  | some i => exact ⟨i, rfl⟩

/-- A search goes over occupied buckets, until it stops at the first vacant one. -/
theorem FirstVacant.search {home : ℕ} (h : FirstVacant table home d) {motive : ℕ → ℕ → Prop}
    (vacant : ∀ rounds, motive d (rounds + 1))
    (step : ∀ c rounds i, c < d → table[slot table.length home c]? = some (some i) →
      motive (c + 1) rounds → motive c (rounds + 1)) : motive 0 table.length := by
  have hlt := h.lt
  have hfrom : ∀ steps c, c + steps = d → motive c (table.length - c) := by
    intro steps
    induction steps with
    | zero =>
      intro c hc
      rw [show table.length - c = table.length - (c + 1) + 1 by omega, show c = d from hc]
      exact vacant _
    | succ steps ih =>
      intro c hc
      obtain ⟨i, hi⟩ := h.exists_index (c := c) (by omega)
      rw [show table.length - c = table.length - (c + 1) + 1 by omega]
      exact step c _ i (by omega) hi (ih (c + 1) (by omega))
  exact hfrom d 0 (Nat.zero_add d)

theorem exists_firstVacant (h : none ∈ table) (home : ℕ) : ∃ d, FirstVacant table home d := by
  obtain ⟨p, hp, hvacant⟩ := List.getElem_of_mem h
  obtain ⟨d₀, hd₀, hslot⟩ := exists_slot_eq hp home
  have hex : ∃ d, table[slot table.length home d]? = some none := by
    refine ⟨d₀, ?_⟩
    rw [hslot, List.getElem?_eq_getElem hp, hvacant]
  have hle : Nat.find hex ≤ d₀ := by
    apply Nat.find_min'
    rw [hslot, List.getElem?_eq_getElem hp, hvacant]
  exact ⟨Nat.find hex, ⟨by omega, Nat.find_spec hex, fun e he ↦ Nat.find_min hex he⟩⟩

/-- `table` holds the indices below `n`, each once and each on its own search path. -/
structure Indexed (home : ℕ → ℕ) (n : ℕ) (table : List (Option ℕ)) : Prop where
  once : ∀ i, table.count (some i) = if i < n then 1 else 0
  vacancies : table.count none + n = table.length
  path : ∀ i < n, ∃ d < table.length, table[slot table.length (home i) d]? = some (some i) ∧
    ∀ e < d, table[slot table.length (home i) e]? ≠ some none

theorem Indexed.replicate (home : ℕ → ℕ) (size : ℕ) :
    Indexed home 0 (List.replicate size none) where
  once i := by simp [List.count_replicate]
  vacancies := by simp
  path i hi := by omega

section

variable (h : Indexed home n table)
include h

theorem Indexed.none_mem (hroom : n < table.length) : none ∈ table := by
  apply List.count_pos_iff.mp
  have := h.vacancies
  omega

/-- A table only depends on the home buckets of the indices it holds. -/
theorem Indexed.congr {home' : ℕ → ℕ} (heq : ∀ i < n, home' i = home i) :
    Indexed home' n table where
  once := h.once
  vacancies := h.vacancies
  path i hi := by
    rw [heq i hi]
    exact h.path i hi

theorem Indexed.index_lt {p i : ℕ} (hp : table[p]? = some (some i)) :
    i < n := by
  have hmem : some i ∈ table := List.mem_of_getElem? hp
  have hpos : 0 < table.count (some i) := List.count_pos_iff.mpr hmem
  rw [h.once i] at hpos
  by_contra hge
  simp [hge] at hpos

/-- Writing the next index into the first vacant bucket of its search keeps the table indexed. -/
theorem Indexed.place (hd : FirstVacant table (home n) d) :
    Indexed home (n + 1) (table.set (slot table.length (home n) d) (some n)) := by
  have hlt : slot table.length (home n) d < table.length := slot_lt (Nat.zero_lt_of_lt hd.lt) _ _
  have hget : table[slot table.length (home n) d] = none := by
    have := hd.vacant
    rwa [List.getElem?_eq_getElem hlt, Option.some_inj] at this
  constructor
  · intro i
    rw [List.count_set hlt, hget, h.once i]
    by_cases hi : i = n
    · simp [hi]
    · have hne : (some n == some i) = false := by simpa using fun heq ↦ hi heq.symm
      have hiff : i < n + 1 ↔ i < n := by omega
      simp [hne, hiff]
  · have hcount := h.vacancies
    have hpos : 0 < table.count none := List.count_pos_iff.mpr (hget ▸ List.getElem_mem hlt)
    rw [List.count_set hlt, hget, List.length_set]
    simp
    omega
  · intro i hi
    rw [List.length_set]
    by_cases hin : i = n
    · subst hin
      refine ⟨d, hd.lt, by simp [hlt], ?_⟩
      intro e he
      have hne := hd.before e he
      rw [List.getElem?_set]
      split
      · simp_all
      · exact hne
    · obtain ⟨c, hc, hat, hbefore⟩ := h.path i (by omega)
      refine ⟨c, hc, ?_, ?_⟩
      · rw [List.getElem?_set_ne, hat]
        intro heq
        rw [← heq, hd.vacant] at hat
        simp at hat
      · intro e he
        have hne := hbefore e he
        rw [List.getElem?_set]
        split
        · simp_all
        · exact hne

end

theorem Indexed.fill {ε : Type*} (home : ℕ → ℕ) (n size : ℕ)
    (place : List (Option ℕ) → ℕ → Except ε (List (Option ℕ))) (hplace : ∀ table m, table.length = size → m < n → Indexed home m table →
      ∃ table', place table m = .ok table' ∧ table'.length = size ∧ Indexed home (m + 1) table') :
    ∃ table, (List.range n).foldlM place (List.replicate size none) = .ok table ∧
      table.length = size ∧ Indexed home n table := by
  induction n with
  | zero => exact ⟨_, rfl, List.length_replicate, Indexed.replicate _ _⟩
  | succ n ih =>
    obtain ⟨table, hfold, hlength, hindexed⟩ :=
      ih fun table m hlength hm ↦ hplace table m hlength (Nat.lt_succ_of_lt hm)
    obtain ⟨table', hstep, hfilled⟩ := hplace table n hlength n.lt_succ_self hindexed
    refine ⟨table', ?_, hfilled⟩
    rw [List.range_succ, List.foldlM_append, hfold]
    simp [bind, Except.bind, hstep, pure, Except.pure]

/-- One of the steps from `c` to `d` of the search from `start` meets the index. -/
def Met (table : List (Option ℕ)) (start d c i : ℕ) : Prop :=
  ∃ e, c ≤ e ∧ e < d ∧ table[slot table.length start e]? = some (some i)

theorem not_met {start i : ℕ} : ¬Met table start d d i :=
  fun ⟨_, hde, hed, _⟩ ↦ hed.not_ge hde

theorem Met.step {start c i index : ℕ} (h : Met table start d c i)
    (hindex : table[slot table.length start c]? = some (some index)) :
    i = index ∨ Met table start d (c + 1) i := by
  obtain ⟨e, hce, hed, hi⟩ := h
  rcases Nat.eq_or_lt_of_le hce with rfl | hlt
  · rw [hindex] at hi
    exact .inl (by simpa using hi.symm)
  · exact .inr ⟨e, hlt, hed, hi⟩

/-- A search that stops at the first vacant bucket has met every index with its home. -/
theorem Indexed.met_before_vacant {i : ℕ} (h : Indexed home n table) (hi : i < n)
    (hd : FirstVacant table (home i) d) : Met table (home i) d 0 i := by
  obtain ⟨c, _, hat, hbefore⟩ := h.path i hi
  refine ⟨c, c.zero_le, ?_, hat⟩
  by_contra hge
  rcases Nat.lt_or_eq_of_le (not_lt.mp hge) with hlt | heq
  · exact hbefore d hlt hd.vacant
  · rw [← heq, hd.vacant] at hat
    simp at hat

end Pon.Probing
