import Pon.Dict.Refinement

/-!
# Dict displays

A display collects its entries with their hashes before the runtime is locked and then fills a new dict
with them at once. It comes to the same dict as inserting the pairs one after the other.
-/

namespace Pon.Dict

variable {K V : Type*}

/-- `object_equal`. -/
def objectEqual (keys : KeyOps K) (left right : K) : Except Fault Bool :=
  match keys.objectEqualStructural left right with
  | some (.ok equal) => .ok equal
  | some (.error message) => .error (.error message)
  | none => (keys.dispatchUserEq left right).mapError .error

/-- The loop of `collect_prehashed_entry`: the entries with the value overwritten where the key is
equal, if there is one. -/
def overwriteEqual (keys : KeyOps K) (key : K) (value : V) (hash : BitVec 64) :
    List (DictEntry K V) → Except Fault (Option (List (DictEntry K V)))
  | [] => .ok none
  | entry :: rest =>
    if entry.hash = hash then
      match objectEqual keys entry.key key with
      | .error fault => .error fault
      | .ok true => .ok (some ({ entry with value } :: rest))
      | .ok false => (overwriteEqual keys key value hash rest).map (Option.map (entry :: ·))
    else
      (overwriteEqual keys key value hash rest).map (Option.map (entry :: ·))

def collectPrehashedEntry (keys : KeyOps K) (entries : List (DictEntry K V)) (key : Option K)
    (value : Option V) : Except Fault (List (DictEntry K V)) :=
  match key, value with
  | none, _ => .error (.error "dict key is NULL")
  | some _, none => .error (.error "dict value is NULL")
  | some key, some value =>
    match hashDictKey keys key with
    | .error fault => .error fault
    | .ok hash =>
      match overwriteEqual keys key value hash entries with
      | .error fault => .error fault
      | .ok (some entries) => .ok entries
      | .ok none => .ok (entries ++ [{ key, value, hash }])

def dictFillPrehashed (dict : PyDictStorage K V) (entries : List (DictEntry K V)) :
    Except Fault Unit × PyDictStorage K V :=
  let filled := { dict with entries := dict.entries ++ entries }
  match rebuildDictBuckets filled with
  | .error fault => (.error fault, filled)
  | .ok dict => (.ok (), dict)

/-- The arguments of a display, in order. -/
abbrev Items (K V : Type*) := List (Option K × Option V)

def collectItem (keys : KeyOps K) (entries : List (DictEntry K V)) (item : Option K × Option V) :
    Except Fault (List (DictEntry K V)) :=
  collectPrehashedEntry keys entries item.1 item.2

/-- A display by way of collected entries. -/
def displayPrehashed (keys : KeyOps K) (items : Items K V) : Except Fault (PyDictStorage K V) :=
  match items.foldlM (collectItem keys) [] with
  | .error fault => .error fault
  | .ok entries =>
    let (result, dict) := dictFillPrehashed initDict entries
    result.map fun _ ↦ dict

def insertItem [DecidableEq K] (keys : KeyOps K) (restarts : ℕ) (dict : PyDictStorage K V)
    (item : Option K × Option V) : Except Fault (PyDictStorage K V) :=
  let (result, dict) := dictInsert keys restarts dict item.1 item.2
  result.map fun _ ↦ dict

/-- A display by way of insertions. -/
def displayInserted [DecidableEq K] (keys : KeyOps K) (restarts : ℕ) (items : Items K V) :
    Except Fault (PyDictStorage K V) :=
  items.foldlM (insertItem keys restarts) initDict

section Collect

variable {keys : KeyOps K} {eq : K → K → Bool} {entries : List (DictEntry K V)} {key : K}
  {hash : BitVec 64}

section

variable (hlaw : LawfulKeys keys eq)
include hlaw

theorem LawfulKeys.objectEqual (a b : K) :
    objectEqual keys a b = .ok (eq a b) := by
  unfold Dict.objectEqual
  rcases hlaw.decides a b with hstructural | ⟨hstructural, huser⟩
  · rw [hstructural]
  · rw [hstructural, huser]
    rfl

theorem overwriteEqual_absent (value : V)
    (habsent : ∀ entry ∈ entries, eq entry.key key = false) :
    overwriteEqual keys key value hash entries = .ok none := by
  induction entries with
  | nil => rfl
  | cons entry rest ih =>
    have hrest := ih fun other hother ↦ habsent other (List.mem_cons_of_mem _ hother)
    rw [overwriteEqual, hlaw.objectEqual, habsent entry List.mem_cons_self, hrest]
    simp only [Except.map, Option.map_none, ite_self]

theorem overwriteEqual_present (value : V)
    {before after : List (DictEntry K V)} {entry : DictEntry K V}
    (hbefore : ∀ other ∈ before, eq other.key key = false) (heq : eq entry.key key = true)
    (hhash : entry.hash = hash) :
    overwriteEqual keys key value hash (before ++ entry :: after) =
      .ok (some (before ++ { entry with value } :: after)) := by
  induction before with
  | nil => rw [List.nil_append, overwriteEqual, if_pos hhash, hlaw.objectEqual, heq, List.nil_append]
  | cons other before ih =>
    have hrest := ih fun other hother ↦ hbefore other (List.mem_cons_of_mem _ hother)
    rw [List.cons_append, overwriteEqual, hlaw.objectEqual, hbefore other List.mem_cons_self, hrest]
    simp only [Except.map, Option.map_some, ite_self, List.cons_append]

/-- Collecting a pair acts as the insertion into the association list does. -/
theorem collectPrehashedEntry_refines (hgood : GoodEntries keys eq entries)
    (hhash : hashDictKey keys key = .ok hash) (value : V) :
    ∃ entries', collectPrehashedEntry keys entries (some key) (some value) = .ok entries' ∧
      entries'.map (fun entry ↦ (entry.key, entry.value)) =
        Assoc.insert eq key value (entries.map fun entry ↦ (entry.key, entry.value)) ∧
      GoodEntries keys eq entries' := by
  have hkey := hashDictKey_ok hhash
  by_cases hpresent : ∃ i, Matches eq entries key i
  · obtain ⟨i, hmatch⟩ := hpresent
    have hentries : GoodEntries keys eq (PyDictStorage.mk entries []).entries := hgood
    obtain ⟨before, entry, after, -, hsplit, -, heq, hbefore⟩ := matches_split hlaw hentries hmatch
    change entries = before ++ entry :: after at hsplit
    subst hsplit
    have hsame : entry.hash = hash := by
      by_contra hne
      have hfalse := eq_false_of_hash_ne hlaw hkey (hgood.hashed entry (by simp)) hne
      rw [heq] at hfalse
      cases hfalse
    refine ⟨before ++ { entry with value } :: after, ?_, ?_, hgood.overwrite value⟩
    · simp only [collectPrehashedEntry, hhash, overwriteEqual_present hlaw value hbefore heq hsame]
    · simp only [List.map_append, List.map_cons]
      symm
      exact Assoc.insert_present (Assoc.pairs_ne hbefore) heq
  · have habsent : ∀ entry ∈ entries, eq entry.key key = false := by
      intro entry hentry
      obtain ⟨i, hi, hget⟩ := List.getElem_of_mem hentry
      by_contra htrue
      exact hpresent ⟨i, entry, by rw [← hget, List.getElem?_eq_getElem hi], by simpa using htrue⟩
    refine ⟨entries ++ [{ key, value, hash }], ?_, ?_, hgood.append hkey habsent⟩
    · simp only [collectPrehashedEntry, hhash, overwriteEqual_absent hlaw value habsent]
    · simp only [List.map_append, List.map_cons, List.map_nil]
      exact (Assoc.insert_absent (Assoc.pairs_ne habsent)).symm

end

theorem entries_eq_of_pairs {entries' : List (DictEntry K V)}
    (h : GoodEntries keys eq entries) (h' : GoodEntries keys eq entries')
    (hpairs : entries.map (fun entry ↦ (entry.key, entry.value)) =
      entries'.map fun entry ↦ (entry.key, entry.value)) : entries = entries' := by
  have hlength : entries.length = entries'.length := by
    have hmapped := congrArg List.length hpairs
    rwa [List.length_map, List.length_map] at hmapped
  refine List.ext_getElem hlength fun i hi hi' ↦ ?_
  have hpair : (entries[i].key, entries[i].value) = (entries'[i].key, entries'[i].value) := by
    have hget := congrArg (fun pairs ↦ pairs[i]?) hpairs
    simpa [hi, hi'] using hget
  obtain ⟨hkey, hvalue⟩ := Prod.mk.inj hpair
  have hhash := h.hashed entries[i] (List.getElem_mem hi)
  have hhash' := h'.hashed entries'[i] (List.getElem_mem hi')
  rw [hkey, hhash'] at hhash
  rcases hentry : entries[i] with ⟨key, value, hash⟩
  rcases hentry' : entries'[i] with ⟨key', value', hash'⟩
  simp_all

end Collect

section Display

variable [DecidableEq K] {keys : KeyOps K} {eq : K → K → Bool}

/-- What one pair makes of the association list. -/
def Assoc.collect (keys : KeyOps K) (eq : K → K → Bool) (pairs : List (K × V))
    (item : Option K × Option V) : Except Fault (List (K × V)) :=
  match Assoc.call keys eq pairs (.insert item.1 item.2) with
  | (.inserted (.error fault), _) => .error fault
  | (_, pairs) => .ok pairs

variable {dict : PyDictStorage K V}

/-- One pair is refused by both ways, or collected as it is inserted. -/
theorem collect_item (hlaw : LawfulKeys keys eq) (restarts : ℕ)
    (hinv : Invariant keys eq dict) (item : Option K × Option V) :
    (∃ fault, collectPrehashedEntry keys dict.entries item.1 item.2 = .error fault ∧
      (dictInsert keys (restarts + 1) dict item.1 item.2).1 = .error fault ∧
      Assoc.collect keys eq (pairs dict) item = .error fault) ∨
    ∃ dict', collectPrehashedEntry keys dict.entries item.1 item.2 = .ok dict'.entries ∧
      dictInsert keys (restarts + 1) dict item.1 item.2 = (.ok (), dict') ∧
      Assoc.collect keys eq (pairs dict) item = .ok (pairs dict') ∧ Invariant keys eq dict' := by
  obtain ⟨key, value⟩ := item
  cases key with
  | none => exact .inl ⟨_, rfl, rfl, rfl⟩
  | some key =>
    cases value with
    | none => exact .inl ⟨_, rfl, rfl, rfl⟩
    | some value =>
      cases hhash : hashDictKey keys key with
      | error fault =>
        refine .inl ⟨fault, ?_, ?_, ?_⟩
        · simp only [collectPrehashedEntry, hhash]
        · simp only [dictInsert, hhash]
        · simp only [Assoc.collect, Assoc.call, hhash]
      | ok hash =>
        obtain ⟨dict', hinsert, hpairs, hinv'⟩ := dictInsert_refines hlaw hinv hhash value restarts
        obtain ⟨entries, hcollect, hcollected, hgood⟩ :=
          collectPrehashedEntry_refines hlaw hinv.good hhash value
        have hsame : entries = dict'.entries :=
          entries_eq_of_pairs hgood hinv'.good (hcollected.trans hpairs.symm)
        refine .inr ⟨dict', hsame ▸ hcollect, hinsert, ?_, hinv'⟩
        simp only [Assoc.collect, Assoc.call, hhash, hpairs]

/-- All pairs of a display, one after the other. -/
theorem collect_items (hlaw : LawfulKeys keys eq) (restarts : ℕ) (items : Items K V)
    (hinv : Invariant keys eq dict) :
    (∃ fault,
      items.foldlM (collectItem keys) dict.entries = .error fault ∧
      items.foldlM (insertItem keys (restarts + 1)) dict = .error fault ∧
      items.foldlM (Assoc.collect keys eq) (pairs dict) = .error fault) ∨
    ∃ dict',
      items.foldlM (collectItem keys) dict.entries = .ok dict'.entries ∧
      items.foldlM (insertItem keys (restarts + 1)) dict = .ok dict' ∧
      items.foldlM (Assoc.collect keys eq) (pairs dict) = .ok (pairs dict') ∧
      Invariant keys eq dict' := by
  induction items generalizing dict with
  | nil => exact .inr ⟨dict, rfl, rfl, rfl, hinv⟩
  | cons item items ih =>
    simp only [List.foldlM_cons, insertItem, collectItem]
    rcases collect_item hlaw restarts hinv item with
      ⟨fault, hcollect, hinsert, hassoc⟩ | ⟨dict', hcollect, hinsert, hassoc, hinv'⟩
    · refine .inl ⟨fault, ?_, ?_, ?_⟩
      · simp only [hcollect, bind, Except.bind]
      · simp only [hinsert, bind, Except.bind, Except.map]
      · simp only [hassoc, bind, Except.bind]
    · simp only [hcollect, hinsert, hassoc, bind, Except.bind, Except.map]
      exact ih hinv'

/-- Both ways of building a display give the same entries, those of the association list: the first of
equal keys stays in its place with the last value. Both tables index them, where without pairs nothing
is inserted and no table is built. -/
theorem display_prehashed_eq_inserted (hlaw : LawfulKeys keys eq) (restarts : ℕ) (items : Items K V) :
    (displayPrehashed keys items).map PyDictStorage.entries =
        (displayInserted keys (restarts + 1) items).map PyDictStorage.entries ∧
      (displayPrehashed keys items).map pairs = items.foldlM (Assoc.collect keys eq) [] ∧
      (∀ dict, displayPrehashed keys items = .ok dict → WellIndexed dict) ∧
      ∀ dict, displayInserted keys (restarts + 1) items = .ok dict →
        dict = initDict ∨ WellIndexed dict := by
  have hinit : Invariant keys eq (initDict : PyDictStorage K V) := invariant_initDict keys eq
  rcases collect_items hlaw restarts items hinit with
    ⟨fault, hcollect, hinsert, hassoc⟩ | ⟨dict, hcollect, hinsert, hassoc, hinv⟩
  · have hfast : displayPrehashed keys items = .error fault := by
      unfold displayPrehashed
      rw [show items.foldlM _ [] = _ from hcollect]
    have hslow : displayInserted keys (restarts + 1) items = .error fault := hinsert
    rw [hfast, hslow, show items.foldlM _ [] = _ from hassoc]
    exact ⟨rfl, rfl, nofun, nofun⟩
  · obtain ⟨buckets, hrebuild, -, hbuilt⟩ :=
      rebuildDictBuckets_built { (initDict : PyDictStorage K V) with entries := dict.entries }
    have hfill : dictFillPrehashed initDict dict.entries =
        (.ok (), { (initDict : PyDictStorage K V) with entries := dict.entries, buckets }) := by
      simp only [dictFillPrehashed, initDict, List.nil_append] at hrebuild ⊢
      rw [hrebuild]
    have hfast : displayPrehashed keys items = .ok { entries := dict.entries, buckets } := by
      unfold displayPrehashed
      rw [show items.foldlM _ [] = _ from hcollect]
      simp only [hfill, Except.map]
    have hslow : displayInserted keys (restarts + 1) items = .ok dict := hinsert
    rw [hfast, hslow, show items.foldlM _ [] = _ from hassoc]
    refine ⟨rfl, rfl, ?_, ?_⟩
    · rintro _ ⟨⟩
      exact hbuilt.wellIndexed
    · rintro _ ⟨⟩
      exact hinv.initDict_or_wellIndexed

/-- Keys 1, 11 and 21 are equal and collide with 4. -/
theorem display_prehashed_eq_inserted_collisions :
    (displayPrehashed residueKeys
        [(some 1, some 7), (some 4, some 8), (some 11, some 9), (some 21, some 6)]).map pairs =
      .ok [(1, 6), (4, 8)] :=
  (display_prehashed_eq_inserted residueKeys_lawful 0 _).2.1

end Display

end Pon.Dict
