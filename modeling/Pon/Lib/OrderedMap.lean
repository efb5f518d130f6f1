import Mathlib.Order.Lattice
import Mathlib.Data.List.Basic

/-!
# Maps in the order of their keys

A finite map is the list of its entries in ascending order of their keys, so that two maps with the
same entries are equal. A map that is filled from a list keeps the last value of every key.
-/

namespace Pon

structure OrderedMap (κ ν : Type) [LinearOrder κ] where
  entries : List (κ × ν)
  sorted : entries.Pairwise fun a b ↦ a.1 < b.1

namespace OrderedMap

variable {κ ν : Type} [LinearOrder κ]

/-- The entries with a new value for a key. -/
def insertEntry (key : κ) (value : ν) : List (κ × ν) → List (κ × ν)
  | [] => [(key, value)]
  | entry :: rest =>
      if key < entry.1 then (key, value) :: entry :: rest
      else if entry.1 < key then entry :: insertEntry key value rest
      else (key, value) :: rest

variable {key : κ} {value : ν} {entries : List (κ × ν)} {map : OrderedMap κ ν}

theorem mem_insertEntry {entry : κ × ν} (h : entry ∈ insertEntry key value entries) :
    entry = (key, value) ∨ entry ∈ entries := by
  induction entries with
  | nil => exact Or.inl (List.mem_singleton.mp h)
  | cons first rest ih =>
    unfold insertEntry at h
    split at h
    · exact List.mem_cons.mp h
    split at h
    · rcases List.mem_cons.mp h with rfl | hin
      · exact Or.inr List.mem_cons_self
      · exact (ih hin).imp_right (List.mem_cons_of_mem _)
    · exact (List.mem_cons.mp h).imp_right (List.mem_cons_of_mem _)

theorem sorted_insertEntry (key : κ) (value : ν) (h : entries.Pairwise fun a b ↦ a.1 < b.1) :
    (insertEntry key value entries).Pairwise fun a b ↦ a.1 < b.1 := by
  induction entries with
  | nil => exact List.pairwise_singleton _ _
  | cons first rest ih =>
    obtain ⟨hfirst, hrest⟩ := List.pairwise_cons.mp h
    unfold insertEntry
    split
    · rename_i hlt
      refine List.pairwise_cons.mpr ⟨fun other hother ↦ ?_, h⟩
      rcases List.mem_cons.mp hother with rfl | hin
      · exact hlt
      · exact hlt.trans (hfirst other hin)
    split
    · rename_i hlt
      refine List.pairwise_cons.mpr ⟨fun other hother ↦ ?_, ih hrest⟩
      rcases mem_insertEntry hother with rfl | hin
      · exact hlt
      · exact hfirst other hin
    · rename_i hle hge
      have hkey : key = first.1 := le_antisymm (not_lt.mp hge) (not_lt.mp hle)
      exact List.pairwise_cons.mpr ⟨fun other hother ↦ hkey ▸ hfirst other hother, hrest⟩

def empty : OrderedMap κ ν where
  entries := []
  sorted := List.Pairwise.nil

def insert (map : OrderedMap κ ν) (key : κ) (value : ν) : OrderedMap κ ν where
  entries := insertEntry key value map.entries
  sorted := sorted_insertEntry key value map.sorted

def erase (map : OrderedMap κ ν) (key : κ) : OrderedMap κ ν where
  entries := map.entries.filter fun entry ↦ decide (entry.1 ≠ key)
  sorted := map.sorted.filter _

def get? (map : OrderedMap κ ν) (key : κ) : Option ν :=
  (map.entries.find? fun entry ↦ decide (entry.1 = key)).map Prod.snd

def values (map : OrderedMap κ ν) : List ν :=
  map.entries.map Prod.snd

/-- The map after the entries of a list have been inserted in turn. -/
def insertAll (map : OrderedMap κ ν) (list : List (κ × ν)) : OrderedMap κ ν :=
  list.foldl (fun map entry ↦ map.insert entry.1 entry.2) map

/-- Keys occur once. -/
theorem mem_entries : (key, value) ∈ map.entries ↔ map.get? key = some value := by
  obtain ⟨entries, hsorted⟩ := map
  unfold get?
  dsimp only
  induction entries with
  | nil => simp
  | cons first rest ih =>
    obtain ⟨hfirst, hrest⟩ := List.pairwise_cons.mp hsorted
    by_cases hkey : first.1 = key
    · rw [List.find?_cons_of_pos (by simpa using hkey), Option.map_some, List.mem_cons]
      constructor
      · rintro (heq | hin)
        · rw [← heq]
        · exact absurd hkey (hfirst _ hin).ne
      · intro heq
        exact Or.inl (Prod.ext hkey.symm (Option.some.inj heq).symm)
    · rw [List.find?_cons_of_neg (by simpa using hkey), ← ih hrest, List.mem_cons]
      refine or_iff_right fun heq ↦ hkey ?_
      rw [← heq]

theorem get?_empty (key : κ) : (empty : OrderedMap κ ν).get? key = none := rfl

theorem get?_insert (map : OrderedMap κ ν) (key other : κ) (value : ν) :
    (map.insert key value).get? other = if other = key then some value else map.get? other := by
  obtain ⟨entries, hsorted⟩ := map
  unfold insert get?
  dsimp only
  induction entries with
  | nil =>
    by_cases hother : other = key
    · simp [insertEntry, hother]
    · simp [insertEntry, hother, Ne.symm hother]
  | cons first rest ih =>
    obtain ⟨hfirst, hrest⟩ := List.pairwise_cons.mp hsorted
    unfold insertEntry
    split
    · by_cases hother : other = key
      · simp [hother]
      · simp [hother, Ne.symm hother]
    · rename_i hle
      split
      · rename_i hlt
        by_cases hhead : first.1 = other
        · rw [List.find?_cons_of_pos (by simpa using hhead),
            List.find?_cons_of_pos (by simpa using hhead), if_neg]
          exact fun heq ↦ hlt.ne (hhead.trans heq)
        · rw [List.find?_cons_of_neg (by simpa using hhead),
            List.find?_cons_of_neg (by simpa using hhead)]
          exact ih hrest
      · rename_i hge
        have hkey : first.1 = key := le_antisymm (not_lt.mp hle) (not_lt.mp hge)
        by_cases hother : other = key
        · simp [hother]
        · simp [hother, hkey, Ne.symm hother]

theorem get?_erase (map : OrderedMap κ ν) (key other : κ) :
    (map.erase key).get? other = if other = key then none else map.get? other := by
  have hmem : ∀ value, (other, value) ∈ (map.erase key).entries ↔
      other ≠ key ∧ (other, value) ∈ map.entries := by
    intro value
    simp only [erase, List.mem_filter, decide_eq_true_eq, and_comm]
  refine Option.ext fun value ↦ ?_
  rw [← mem_entries, hmem, mem_entries]
  split
  · simp_all
  · simp_all

/-- The values with a property that tells the key are the value of the key. -/
theorem filter_values {p : ν → Bool}
    (h : ∀ other value, map.get? other = some value → (p value = true ↔ other = key)) :
    map.values.filter p = (map.get? key).toList := by
  have hentries : ∀ entry ∈ map.entries, (p entry.2 = true ↔ entry.1 = key) :=
    fun entry hentry ↦ h _ _ (mem_entries.mp hentry)
  obtain ⟨entries, hsorted⟩ := map
  clear h
  unfold values get?
  dsimp only at hentries ⊢
  induction entries with
  | nil => rfl
  | cons first rest ih =>
    obtain ⟨hfirst, hrest⟩ := List.pairwise_cons.mp hsorted
    have hhead := hentries first List.mem_cons_self
    have htail := ih hrest fun entry hentry ↦ hentries entry (List.mem_cons_of_mem _ hentry)
    rw [List.map_cons]
    by_cases hkey : first.1 = key
    · have hnone : rest.find? (fun entry ↦ decide (entry.1 = key)) = none := by
        refine List.find?_eq_none.mpr fun other hother ↦ ?_
        have hlt := hfirst other hother
        rw [hkey] at hlt
        simpa using hlt.ne'
      rw [List.filter_cons_of_pos (hhead.mpr hkey), htail, hnone,
        List.find?_cons_of_pos (by simpa using hkey)]
      rfl
    · rw [List.filter_cons_of_neg (fun hp ↦ hkey (hhead.mp hp)), htail,
        List.find?_cons_of_neg (by simpa using hkey)]

theorem entries_eq {a b : List (κ × ν)} (ha : a.Pairwise fun x y ↦ x.1 < y.1)
    (hb : b.Pairwise fun x y ↦ x.1 < y.1) (h : ∀ entry, entry ∈ a ↔ entry ∈ b) : a = b := by
  induction a generalizing b with
  | nil =>
    cases b with
    | nil => rfl
    | cons first _ => exact absurd ((h first).mpr List.mem_cons_self) List.not_mem_nil
  | cons first rest ih =>
    cases b with
    | nil => exact absurd ((h first).mp List.mem_cons_self) List.not_mem_nil
    | cons other rest' =>
      obtain ⟨hfirst, hrest⟩ := List.pairwise_cons.mp ha
      obtain ⟨hother, hrest'⟩ := List.pairwise_cons.mp hb
      have hhead : first = other := by
        rcases List.mem_cons.mp ((h first).mp List.mem_cons_self) with heq | hin
        · exact heq
        rcases List.mem_cons.mp ((h other).mpr List.mem_cons_self) with heq | hin'
        · exact heq.symm
        · exact absurd (hother _ hin) (hfirst _ hin').asymm
      subst hhead
      congr 1
      refine ih hrest hrest' fun entry ↦ ⟨fun hin ↦ ?_, fun hin ↦ ?_⟩
      · refine (List.mem_cons.mp ((h entry).mp (List.mem_cons_of_mem _ hin))).resolve_left ?_
        rintro rfl
        exact lt_irrefl _ (hfirst _ hin)
      · refine (List.mem_cons.mp ((h entry).mpr (List.mem_cons_of_mem _ hin))).resolve_left ?_
        rintro rfl
        exact lt_irrefl _ (hother _ hin)

/-- Maps with the same values are equal. -/
@[ext]
theorem ext {a b : OrderedMap κ ν} (h : ∀ key, a.get? key = b.get? key) : a = b := by
  have hentries : a.entries = b.entries := by
    refine entries_eq a.sorted b.sorted fun ⟨key, value⟩ ↦ ?_
    rw [mem_entries, mem_entries, h]
  cases a
  cases b
  cases hentries
  rfl

/-- The last value of the key counts. -/
theorem get?_insertAll (map : OrderedMap κ ν) (list : List (κ × ν)) (key : κ) :
    (map.insertAll list).get? key =
      ((list.filter fun entry ↦ decide (entry.1 = key)).getLast?.map Prod.snd).or (map.get? key) := by
  unfold insertAll
  induction list generalizing map with
  | nil => rfl
  | cons first rest ih =>
    rw [List.foldl_cons, ih, get?_insert]
    by_cases hkey : first.1 = key
    · rw [if_pos hkey.symm, List.filter_cons_of_pos (by simpa using hkey), List.getLast?_cons]
      cases (rest.filter fun entry ↦ decide (entry.1 = key)).getLast? <;> rfl
    · rw [if_neg (Ne.symm hkey), List.filter_cons_of_neg (by simpa using hkey)]

/-- Filling an empty map with the entries of a map gives the map. -/
theorem insertAll_entries (map : OrderedMap κ ν) : empty.insertAll map.entries = map := by
  ext key : 1
  rw [get?_insertAll, get?_empty, Option.or_none]
  refine Option.ext fun value ↦ ?_
  rw [← mem_entries, Option.map_eq_some_iff]
  constructor
  · rintro ⟨entry, hlast, rfl⟩
    obtain ⟨hin, hkey⟩ := List.mem_filter.mp (List.mem_of_getLast? hlast)
    rw [← of_decide_eq_true hkey]
    exact hin
  · intro hin
    have hne : (map.entries.filter fun entry ↦ decide (entry.1 = key)) ≠ [] :=
      List.ne_nil_of_mem (List.mem_filter.mpr ⟨hin, by simp⟩)
    refine ⟨_, List.getLast?_eq_some_getLast hne, ?_⟩
    obtain ⟨hlast, hkey⟩ := List.mem_filter.mp (List.getLast_mem hne)
    have hsame := of_decide_eq_true hkey
    rw [← Prod.eta ((map.entries.filter _).getLast hne), hsame, mem_entries] at hlast
    exact Option.some.inj (hlast.symm.trans (mem_entries.mp hin))

end OrderedMap

end Pon
