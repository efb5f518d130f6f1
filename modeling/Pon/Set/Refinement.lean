import Pon.Set.Table

/-!
# Sets refine insertion-ordered finite sets

The abstract store holds, for each set object, its flavor and an insertion-ordered finite set up to
the equality of elements. A comparison operator answers a question about the sets of classes:
equality, inclusion or strict inclusion. The main result runs an arbitrary sequence of calls on the
heap and on the store: the replies agree, each object holds the representatives in order, and its
table, once built, indexes them. The proof is one lemma for each operation on one storage, lifted to
the heap.
-/

namespace Pon.Set

open Dict (Fault bucketCapacity bucketIndex lt_bucketCapacity bucketCapacity_eq_pow
  slot_zero_bucketIndex)
open Probing

variable {K : Type*}

/-! ## The abstract store -/

inductive Flavor
  | set
  | frozenset
deriving DecidableEq, Repr

def SetObject.flavor : SetObject K → Flavor
  | .set _ => .set
  | .frozenset _ => .frozenset

namespace Abstract

variable [Setoid K] [∀ a b : K, Decidable (a ≈ b)]

/-- The set of the items, unless one of them is NULL or cannot be hashed. -/
def ofItems (ops : ElementOps K) (nullMessage : String) (s : OrderedSet K) :
    List (Option K) → Except Fault (OrderedSet K)
  | [] => .ok s
  | none :: _ => .error (.error nullMessage)
  | some item :: rest =>
    match hashSetElement ops (some item) with
    | .error fault => .error fault
    | .ok _ => ofItems ops nullMessage (s.add item) rest

def binary (op : BinaryOp) (s t : OrderedSet K) : OrderedSet K :=
  match op with
  | .union => s.union t
  | .intersection => s.inter t
  | .difference => s.diff t
  | .symmetricDifference => s.symmDiff t

/-- What a comparison operator means. -/
def compare (op : ℤ) (s t : OrderedSet K) : Except Fault Bool :=
  if op = richEq then
    .ok (decide (s.elements = t.elements))
  else if op = richNe then
    .ok (decide (s.elements ≠ t.elements))
  else if op = richLe then
    .ok (decide (s.elements ⊆ t.elements))
  else if op = richGe then
    .ok (decide (t.elements ⊆ s.elements))
  else if op = richLt then
    .ok (decide (s.elements ⊂ t.elements))
  else if op = richGt then
    .ok (decide (t.elements ⊂ s.elements))
  else
    .error (.error "unknown rich comparison operation")

variable (store : List (Flavor × OrderedSet K))

def alloc (built : Except Fault (Flavor × OrderedSet K)) :
    Except Fault ℕ × List (Flavor × OrderedSet K) :=
  match built with
  | .error fault => (.error fault, store)
  | .ok object => (.ok store.length, store ++ [object])

/-- Change a mutable set. -/
def onSet {α : Type*} (set : ℕ) (f : OrderedSet K → α × OrderedSet K) :
    Except Fault α × List (Flavor × OrderedSet K) :=
  match store[set]? with
  | some (.set, s) => (.ok (f s).1, store.set set (.set, (f s).2))
  | _ => (.error (.error "expected set object"), store)

/-- Refuse NULL and items that cannot be hashed. -/
def withItem {α : Type*} (ops : ElementOps K) (item : Option K)
    (f : K → Except Fault α × List (Flavor × OrderedSet K)) :
    Except Fault α × List (Flavor × OrderedSet K) :=
  match item with
  | none => (.error (.error "set item is NULL"), store)
  | some item =>
    match hashSetElement ops (some item) with
    | .error fault => (.error fault, store)
    | .ok _ => f item

def withSets {α : Type*} (left right : ℕ) (f : OrderedSet K → OrderedSet K → Except Fault α) :
    Except Fault α :=
  match store[left]?, store[right]? with
  | some (_, s), some (_, t) => f s t
  | _, _ => .error (.error "expected set or frozenset object")

def contains (set : ℕ) (item : K) : Except Fault Bool × List (Flavor × OrderedSet K) :=
  match store[set]? with
  | some (_, s) => (.ok (decide (item ∈ s)), store)
  | none => (.error (.error "expected set or frozenset object"), store)

def call (ops : ElementOps K) : Call K → Reply K × List (Flavor × OrderedSet K)
  | .buildSet items =>
    (alloc store ((ofItems ops "set item is NULL" .empty items).map (Flavor.set, ·))).map .built id
  | .buildFrozenset items =>
    (alloc store
      ((ofItems ops "cannot hash NULL object" .empty items).map (Flavor.frozenset, ·))).map
      .built id
  | .binary op left right =>
    (alloc store (withSets store left right fun s t ↦
      .ok (((store[left]?).map Prod.fst).getD .set, binary op s t))).map .built id
  | .add set item =>
    (withItem store ops item fun item ↦ onSet store set fun s ↦ ((), s.add item)).map .updated id
  | .remove set item =>
    (withItem store ops item fun item ↦ onSet store set fun s ↦
      (decide (item ∈ s), s.remove item)).map .answered id
  | .discard set item =>
    (withItem store ops item fun item ↦ onSet store set fun s ↦ ((), s.remove item)).map .updated id
  | .pop set => (onSet store set fun s ↦ (s.entries.head?, s.dropFirst)).map .popped id
  | .clear set => (onSet store set fun _ ↦ ((), .empty)).map .updated id
  | .contains set item => (withItem store ops item (contains store set)).map .answered id
  | .equal left right =>
    (.answered (withSets store left right fun s t ↦ .ok (decide (s.elements = t.elements))), store)
  | .richcmp left right op =>
    if store[left]?.isNone || store[right]?.isNone then
      (.compared (.ok none), store)
    else
      (.compared ((withSets store left right (compare op)).map some), store)

def run (ops : ElementOps K) (store : List (Flavor × OrderedSet K)) :
    List (Call K) → List (Reply K) × List (Flavor × OrderedSet K)
  | [] => ([], store)
  | c :: rest =>
    let (reply, store) := call store ops c
    let (replies, store) := run ops store rest
    (reply :: replies, store)

end Abstract

/-! ## Representation -/

section Representation

variable [Setoid K]

/-- A storage holds the representatives of the set in order. -/
structure Holds (ops : ElementOps K) (entries : List K) (buckets : List (Option ℕ))
    (s : OrderedSet K) : Prop where
  entries_eq : entries = s.entries
  stored : Stored ops entries buckets

/-- An object stands for a flavor and a set. -/
structure Represents (ops : ElementOps K) (object : SetObject K)
    (abstract : Flavor × OrderedSet K) : Prop where
  flavor_eq : object.flavor = abstract.1
  holds : Holds ops object.entries object.buckets abstract.2

structure HeapHolds (ops : ElementOps K) (heap : List (SetObject K))
    (store : List (Flavor × OrderedSet K)) : Prop where
  length_eq : heap.length = store.length
  represents : ∀ (i : ℕ) object abstract, heap[i]? = some object → store[i]? = some abstract →
    Represents ops object abstract

variable {ops : ElementOps K} {heap : List (SetObject K)} {store : List (Flavor × OrderedSet K)}

theorem HeapHolds.nil (ops : ElementOps K) : HeapHolds ops [] ([] : List (Flavor × OrderedSet K)) where
  length_eq := rfl
  represents := by simp

/-- The heap and the store have an object at the same positions. -/
theorem HeapHolds.lookup (h : HeapHolds ops heap store) (i : ℕ) :
    heap[i]? = none ∧ store[i]? = none ∨
      ∃ object abstract, heap[i]? = some object ∧ store[i]? = some abstract ∧
        Represents ops object abstract := by
  rcases Nat.lt_or_ge i heap.length with hlt | hge
  · have hlt' : i < store.length := h.length_eq ▸ hlt
    have hobject : heap[i]? = some heap[i] := List.getElem?_eq_getElem hlt
    have habstract : store[i]? = some store[i] := List.getElem?_eq_getElem hlt'
    exact Or.inr ⟨_, _, hobject, habstract, h.represents i _ _ hobject habstract⟩
  · exact Or.inl ⟨List.getElem?_eq_none hge, List.getElem?_eq_none (h.length_eq ▸ hge)⟩

variable {object : SetObject K} {abstract : Flavor × OrderedSet K}

theorem HeapHolds.set (h : HeapHolds ops heap store) (i : ℕ) (hrep : Represents ops object abstract) :
    HeapHolds ops (heap.set i object) (store.set i abstract) where
  length_eq := by simp [h.length_eq]
  represents j object' abstract' hobject habstract := by
    rw [List.getElem?_set] at hobject habstract
    by_cases hij : i = j
    · simp only [hij, if_true] at hobject habstract
      split at hobject <;> split at habstract <;> simp_all
    · simp only [hij, if_false] at hobject habstract
      exact h.represents j _ _ hobject habstract

theorem HeapHolds.push (h : HeapHolds ops heap store) (hrep : Represents ops object abstract) :
    HeapHolds ops (heap ++ [object]) (store ++ [abstract]) where
  length_eq := by simp [h.length_eq]
  represents j object' abstract' hobject habstract := by
    rcases Nat.lt_or_ge j heap.length with hlt | hge
    · rw [List.getElem?_append_left hlt] at hobject
      rw [List.getElem?_append_left (h.length_eq ▸ hlt)] at habstract
      exact h.represents j _ _ hobject habstract
    · rw [List.getElem?_append_right hge] at hobject
      rw [List.getElem?_append_right (h.length_eq ▸ hge), ← h.length_eq] at habstract
      cases hj : j - heap.length with
      | zero =>
        rw [hj] at hobject habstract
        cases hobject
        cases habstract
        exact hrep
      | succ k => simp [hj] at hobject

end Representation

/-! ## Operations on one storage -/

section Storage

variable [Setoid K] {ops : ElementOps K} {item : K} {hash : BitVec 64} {s : OrderedSet K} {set : PySet K}

/-- The entries around an index that matches. -/
theorem Matches.split {i : ℕ} (h : Matches s.entries item i) :
    ∃ entry, s.entries = s.entries.take i ++ entry :: s.entries.drop (i + 1) ∧ entry ≈ item ∧
      i < s.entries.length := by
  obtain ⟨entry, hget, heq⟩ := h
  obtain ⟨hi, hentry⟩ := List.getElem?_eq_some_iff.mp hget
  refine ⟨entry, ?_, heq, hi⟩
  rw [← hentry, List.getElem_cons_drop, List.take_append_drop]

theorem popStorage_spec (h : Holds ops set.entries set.buckets s) :
    ∃ set', popStorage ops set = (.ok s.entries.head?, set') ∧
      Holds ops set'.entries set'.buckets s.dropFirst := by
  have hentries := h.entries_eq
  unfold popStorage
  cases hset : set.entries with
  | nil =>
    rw [hset] at hentries
    refine ⟨set, by simp [← hentries], ?_, h.stored⟩
    simp [OrderedSet.dropFirst, ← hentries, hset]
  | cons value rest =>
    rw [hset] at hentries
    have hhashed : ∀ entry ∈ rest, Hashable ops entry := fun entry hentry ↦
      h.stored.hashed entry (by simp [hset, hentry])
    obtain ⟨buckets, hrebuild, hbuilt⟩ := rebuildSetBuckets_built (PySet.mk rest set.buckets) hhashed
    simp only [hrebuild]
    refine ⟨⟨rest, buckets⟩, by simp [← hentries], ?_, hhashed, Or.inr hbuilt⟩
    simp [OrderedSet.dropFirst, ← hentries]

variable [∀ a b : K, Decidable (a ≈ b)]

theorem frozensetContains_spec (hlaw : LawfulElements ops) (set : PyFrozenSet K)
    (h : Holds ops set.entries set.buckets s) (hitem : ops.hashObject item = .ok hash) :
    ∃ set', frozensetContains ops set item = (.ok (decide (item ∈ s)), set') ∧
      Holds ops set'.entries set'.buckets s := by
  obtain ⟨buckets, hensure, hstored, hempty⟩ := ensureFrozensetBuckets_stored h.stored
  simp only [frozensetContains, hashSetElement_ok.mpr hitem, hensure]
  rcases hstored.table with hnil | hbuilt
  · have habsent : item ∉ s := by
      rintro ⟨entry, hentry, _⟩
      simp [← h.entries_eq, hempty hnil] at hentry
    exact ⟨{ set with buckets }, by simp [hnil, habsent], h.entries_eq, hstored⟩
  · obtain ⟨d, hd⟩ := exists_firstVacant (hbuilt.indexed.none_mem hbuilt.room)
      (bucketIndex hash buckets.length)
    obtain ⟨found, hprobe, hfound, hnone⟩ := frozensetProbe_spec hlaw
      { set with buckets } h.stored.hashed hitem hbuilt hd
    rw [slot_zero_bucketIndex hbuilt.power_of_two] at hprobe
    have hanswer : found = decide (item ∈ s) := by
      simp only [h.entries_eq] at hfound hnone
      cases found with
      | true => exact (decide_eq_true (exists_matches.mp (hfound rfl))).symm
      | false =>
        refine (decide_eq_false fun hmem ↦ ?_).symm
        obtain ⟨i, hmatch⟩ := exists_matches.mpr hmem
        exact hnone rfl i (hbuilt.met hlaw hitem hd (h.entries_eq ▸ hmatch)) hmatch
    simp only [List.isEmpty_iff, hbuilt.ne_nil, if_false, hprobe, hanswer]
    exact ⟨_, rfl, h.entries_eq, hstored⟩

variable [DecidableEq K]

section

variable (hlaw : LawfulElements ops) (h : Holds ops set.entries set.buckets s)
  (hitem : ops.hashObject item = .ok hash) (restarts : ℕ)
include hlaw h hitem

/-- The lookup that starts every keyed operation on a mutable set. -/
theorem lookup_spec :
    ∃ buckets found, ensureSetBuckets ops set = .ok { set with buckets } ∧
      Built ops set.entries buckets ∧
      findSetIndex ops { set with buckets } item hash (restarts + 1) = .ok found ∧
      (∀ i, found = some i → Matches s.entries item i) ∧ found.isSome = decide (item ∈ s) := by
  obtain ⟨buckets, hensure, hbuilt⟩ := ensureSetBuckets_built h.stored
  obtain ⟨found, hfind, hfound, hnone⟩ := findSetIndex_spec hlaw
    { set with buckets } h.stored.hashed hitem hbuilt restarts
  simp only [h.entries_eq] at hfound hnone
  refine ⟨buckets, found, hensure, hbuilt, hfind, hfound, ?_⟩
  cases found with
  | none =>
    have habsent : item ∉ s := fun hmem ↦ by
      obtain ⟨i, hi⟩ := exists_matches.mpr hmem
      exact hnone rfl i hi
    simp [habsent]
  | some i =>
    have hmem : item ∈ s := exists_matches.mp ⟨i, hfound i rfl⟩
    simp [hmem]

theorem addHashed_spec :
    ∃ set', addHashed ops (restarts + 1) item hash set = (.ok (), set') ∧
      Holds ops set'.entries set'.buckets (s.add item) := by
  obtain ⟨buckets, found, hensure, hbuilt, hfind, hfound, hmem⟩ := lookup_spec hlaw h hitem restarts
  simp only [addHashed, hensure, hfind]
  cases found with
  | some index =>
    have hpresent : item ∈ s := of_decide_eq_true hmem.symm
    rw [OrderedSet.add_of_mem hpresent]
    exact ⟨_, rfl, h.entries_eq, h.stored.hashed, Or.inr hbuilt⟩
  | none =>
    have habsent : item ∉ s := of_decide_eq_false hmem.symm
    obtain ⟨buckets', hcapacity, hbuilt', hroom⟩ :=
      ensureSetInsertCapacity_built { set with buckets } h.stored.hashed hbuilt
    have hhash : elementHash ops item = hash := by simp [elementHash, hitem, Except.toOption]
    have hget : (set.entries ++ [item])[set.entries.length]? = some item := by simp
    have hindexed : Indexed (home ops (set.entries ++ [item]) buckets'.length)
        set.entries.length buckets' := by
      apply hbuilt'.indexed.congr
      intro i hi
      simp [home, List.getElem?_append_left hi]
    obtain ⟨buckets'', hinsert, hlen, hindexed'⟩ := insertBucketHashed_places hget
      hbuilt'.power_of_two hbuilt'.room hindexed
    rw [hhash] at hinsert
    simp only [hcapacity, hinsert]
    refine ⟨_, rfl, ?_, ?_, Or.inr ⟨?_, ?_, ?_⟩⟩
    · rw [OrderedSet.entries_add_of_not_mem habsent, h.entries_eq]
    · intro entry hentry
      rcases List.mem_append.mp hentry with hold | hnew
      · exact h.stored.hashed entry hold
      · rw [List.mem_singleton.mp hnew]
        exact hashable_of_ok hitem
    · simpa [hlen] using hbuilt'.power_of_two
    · simpa using hindexed'
    · simp only [List.length_append, List.length_singleton, hlen]
      exact hroom

theorem removeHashed_spec :
    ∃ set', removeHashed ops (restarts + 1) item hash set = (.ok (decide (item ∈ s)), set') ∧
      Holds ops set'.entries set'.buckets (s.remove item) := by
  obtain ⟨buckets, found, hensure, hbuilt, hfind, hfound, hmem⟩ := lookup_spec hlaw h hitem restarts
  simp only [removeHashed, hensure, hfind]
  cases found with
  | none =>
    have habsent : item ∉ s := of_decide_eq_false hmem.symm
    rw [OrderedSet.remove_of_not_mem habsent]
    exact ⟨{ set with buckets }, by simp [habsent], h.entries_eq, h.stored.hashed, Or.inr hbuilt⟩
  | some index =>
    have hpresent : item ∈ s := of_decide_eq_true hmem.symm
    obtain ⟨entry, hsplit, heq, hlt⟩ := (hfound index rfl).split
    have herase : set.entries.eraseIdx index = (s.remove item).entries := by
      rw [OrderedSet.entries_remove_of_split hsplit heq, h.entries_eq, List.eraseIdx_eq_take_drop_succ]
    have hhashed : ∀ entry ∈ (s.remove item).entries, Hashable ops entry := by
      intro other hother
      rw [← herase] at hother
      exact h.stored.hashed other (List.mem_of_mem_eraseIdx hother)
    obtain ⟨buckets', hrebuild, hbuilt'⟩ :=
      rebuildSetBuckets_built (PySet.mk (s.remove item).entries buckets) hhashed
    have hlt' : index < set.entries.length := h.entries_eq ▸ hlt
    simp only [hlt', if_true, herase, hrebuild, hpresent, decide_true]
    exact ⟨_, rfl, rfl, hhashed, Or.inr hbuilt'⟩

end

theorem containsHashed_spec (hlaw : LawfulElements ops) (set : PySet K)
    (h : Holds ops set.entries set.buckets s) (hitem : ops.hashObject item = .ok hash)
    (restarts : ℕ) :
    ∃ set', containsHashed ops (restarts + 1) item hash set = (.ok (decide (item ∈ s)), set') ∧
      Holds ops set'.entries set'.buckets s := by
  obtain ⟨buckets, found, hensure, hbuilt, hfind, hfound, hmem⟩ := lookup_spec hlaw h hitem restarts
  simp only [containsHashed, hensure, hfind, Except.map, hmem]
  exact ⟨_, rfl, h.entries_eq, h.stored.hashed, Or.inr hbuilt⟩

end Storage

/-! ## New sets -/

section Build

variable [Setoid K] {ops : ElementOps K} {s t : OrderedSet K}

/-- Entries that can be hashed and carry no table yet. -/
theorem holds_of_hashable (h : ∀ entry ∈ s.entries, Hashable ops entry) :
    Holds ops s.entries [] s where
  entries_eq := rfl
  stored := ⟨h, Or.inl rfl⟩

variable [∀ a b : K, Decidable (a ≈ b)] {item : K}

theorem hashable_add (hs : ∀ entry ∈ s.entries, Hashable ops entry) (hitem : Hashable ops item) :
    ∀ entry ∈ (s.add item).entries, Hashable ops entry := by
  intro entry hentry
  by_cases hmem : item ∈ s
  · rw [OrderedSet.add_of_mem hmem] at hentry
    exact hs entry hentry
  · rw [OrderedSet.entries_add_of_not_mem hmem] at hentry
    rcases List.mem_append.mp hentry with hold | hnew
    · exact hs entry hold
    · rw [List.mem_singleton.mp hnew]
      exact hitem

theorem ofItems_hashable (nullMessage : String) {items : List (Option K)}
    (hs : ∀ entry ∈ s.entries, Hashable ops entry)
    (h : Abstract.ofItems ops nullMessage s items = .ok t) :
    ∀ entry ∈ t.entries, Hashable ops entry := by
  induction items generalizing s with
  | nil =>
    cases h
    exact hs
  | cons item rest ih =>
    cases item with
    | none => cases h
    | some item =>
      simp only [Abstract.ofItems] at h
      cases hhash : hashSetElement ops (some item) with
      | error fault =>
        rw [hhash] at h
        cases h
      | ok hash =>
        rw [hhash] at h
        exact ih (hashable_add hs (hashable_of_ok (hashSetElement_ok.mp hhash))) h

theorem ofItems_of_hashable {nullMessage : String} {items : List K}
    (h : ∀ item ∈ items, Hashable ops item) :
    Abstract.ofItems ops nullMessage s (items.map some) = .ok (s.addAll items) := by
  induction items generalizing s with
  | nil => rfl
  | cons item rest ih =>
    have hhash := (h item (by simp)).hashSetElement
    simp only [List.map_cons, Abstract.ofItems, hhash]
    exact ih fun other hother ↦ h other (by simp [hother])

/-- The linear-scan insertion adds the items as hashed insertion does. -/
theorem insertUniqueEntries_eq (hlaw : LawfulElements ops) (items : List (Option K)) :
    insertUniqueEntries ops s.entries items =
      (Abstract.ofItems ops "cannot hash NULL object" s items).map OrderedSet.entries := by
  induction items generalizing s with
  | nil => rfl
  | cons item rest ih =>
    cases item with
    | none => rfl
    | some item =>
      simp only [insertUniqueEntries, Abstract.ofItems]
      cases hhash : hashSetElement ops (some item) with
      | error fault => rfl
      | ok hash =>
        have hsome := isSome_findIdx item s
        simp only [findElementIndex_eq hlaw]
        cases hfind : s.entries.findIdx? (fun entry ↦ decide (entry ≈ item)) with
        | none =>
          rw [hfind] at hsome
          have habsent : item ∉ s := of_decide_eq_false hsome.symm
          have hentries := OrderedSet.entries_add_of_not_mem habsent
          simp only [← hentries, ih]
        | some index =>
          rw [hfind] at hsome
          have hpresent : item ∈ s := of_decide_eq_true hsome.symm
          simp only [OrderedSet.add_of_mem hpresent, ih]

/-- The representatives with their hashes. -/
def prehashed (ops : ElementOps K) (s : OrderedSet K) : List (K × BitVec 64) :=
  s.entries.map fun entry ↦ (entry, elementHash ops entry)

variable {hash : BitVec 64}

theorem scan_eq (hlaw : LawfulElements ops) (hitem : ops.hashObject item = .ok hash)
    (elements : List (K × BitVec 64)) {rest : List K} (hrest : ∀ entry ∈ rest, Hashable ops entry) :
    collectPrehashedElement.scan ops elements item hash
        (rest.map fun entry ↦ (entry, elementHash ops entry)) =
      .ok (if ∃ entry ∈ rest, entry ≈ item then elements else elements ++ [(item, hash)]) := by
  induction rest with
  | nil => simp [collectPrehashedElement.scan]
  | cons entry rest ih =>
    have ih := ih fun other hother ↦ hrest other (by simp [hother])
    simp only [List.map_cons, collectPrehashedElement.scan, hlaw.objectEqual, ih,
      List.exists_mem_cons_iff]
    by_cases heq : entry ≈ item
    · have hsame : elementHash ops entry = hash := by
        simp [elementHash, hlaw.hash_eq _ _ heq, hitem, Except.toOption]
      simp [heq, hsame]
    · simp [heq]

theorem collectPrehashedElement_eq (hlaw : LawfulElements ops)
    (hitem : ops.hashObject item = .ok hash) (hs : ∀ entry ∈ s.entries, Hashable ops entry) :
    collectPrehashedElement ops (some item) (prehashed ops s) = .ok (prehashed ops (s.add item)) := by
  have hhash : elementHash ops item = hash := by simp [elementHash, hitem, Except.toOption]
  simp only [collectPrehashedElement, hashSetElement_ok.mpr hitem]
  have hscan := scan_eq hlaw hitem (prehashed ops s) hs
  rw [prehashed] at hscan ⊢
  rw [hscan]
  by_cases hmem : item ∈ s
  · rw [if_pos (OrderedSet.mem_iff.mp hmem), OrderedSet.add_of_mem hmem]
    rfl
  · rw [if_neg (fun h ↦ hmem (OrderedSet.mem_iff.mpr h)), prehashed,
      OrderedSet.entries_add_of_not_mem hmem, List.map_append, List.map_singleton, hhash]

theorem collect_eq (hlaw : LawfulElements ops) (items : List (Option K))
    (hs : ∀ entry ∈ s.entries, Hashable ops entry) :
    items.foldlM (fun elements item ↦ collectPrehashedElement ops item elements)
        (prehashed ops s) =
      (Abstract.ofItems ops "set item is NULL" s items).map (prehashed ops) := by
  induction items generalizing s with
  | nil => rfl
  | cons item rest ih =>
    cases item with
    | none => rfl
    | some item =>
      simp only [List.foldlM_cons, Abstract.ofItems]
      cases hhash : hashSetElement ops (some item) with
      | error fault => simp [collectPrehashedElement, hhash, bind, Except.bind, Except.map]
      | ok hash =>
        have hitem := hashSetElement_ok.mp hhash
        rw [collectPrehashedElement_eq hlaw hitem hs]
        exact ih (hashable_add hs (hashable_of_ok hitem))

/-- Places the element of an index with the hash that it comes with. -/
def placePrehashed (elements : List (K × BitVec 64)) (buckets : List (Option ℕ)) (index : ℕ) :
    Except Fault (List (Option ℕ)) :=
  match elements[index]? with
  | none => .error .panic
  | some (_, hash) => insertBucketHashed buckets hash index

omit [∀ a b : K, Decidable (a ≈ b)] in
theorem setFillPrehashed_eq (hs : ∀ entry ∈ s.entries, Hashable ops entry) :
    ∃ storage, setFillPrehashed (prehashed ops s) = .ok storage ∧
      Holds ops storage.entries storage.buckets s := by
  have hplaces : Places ops s.entries (placePrehashed (prehashed ops s)) := by
    intro buckets n hsize hn hroom h
    have hget : s.entries[n]? = some s.entries[n] := List.getElem?_eq_getElem hn
    simp only [placePrehashed, prehashed, List.getElem?_map, hget, Option.map_some]
    exact insertBucketHashed_places hget hsize hroom h
  have hlen : (prehashed ops s).length = s.entries.length := List.length_map _
  have hfst : (prehashed ops s).map Prod.fst = s.entries := by
    simp [prehashed, Function.comp_def]
  obtain ⟨buckets, hfold, _, hbuilt⟩ :=
    hplaces.built (bucketCapacity_eq_pow s.entries.length) (lt_bucketCapacity _)
  refine ⟨⟨s.entries, buckets⟩, ?_, rfl, hs, Or.inr hbuilt⟩
  rw [← hlen] at hfold
  simp only [setFillPrehashed, hfst, ← hlen]
  exact congrArg (Except.map fun buckets ↦ PySet.mk s.entries buckets) hfold

end Build

/-! ## Combining and comparing sets -/

section Combine

variable [Setoid K] [∀ a b : K, Decidable (a ≈ b)] {ops : ElementOps K} {s t : OrderedSet K}

theorem binaryEntries_eq (hlaw : LawfulElements ops) (op : BinaryOp)
    (ht : ∀ entry ∈ t.entries, Hashable ops entry) :
    binaryEntries ops op s.entries t.entries = .ok (Abstract.binary op s t).entries := by
  cases op with
  | union =>
    simp only [binaryEntries, insertUniqueEntries_eq hlaw, ofItems_of_hashable ht, Except.map]
    rfl
  | intersection =>
    simp only [binaryEntries, entriesWhere_eq hlaw]
    simp [Abstract.binary, OrderedSet.inter, OrderedSet.filter]
  | difference =>
    simp only [binaryEntries, entriesWhere_eq hlaw]
    simp [Abstract.binary, OrderedSet.diff, OrderedSet.filter]
  | symmetricDifference =>
    have hunique : uniqueEntries ops (t.entries.map some) = .ok t.entries := by
      have hall := OrderedSet.entries_addAll_of_disjoint (s := .empty) t.distinct
        fun x _ hx ↦ by simp [OrderedSet.mem_iff, OrderedSet.empty] at hx
      have hinsert := insertUniqueEntries_eq (s := .empty) hlaw (t.entries.map some)
      rw [ofItems_of_hashable ht, Except.map, hall] at hinsert
      exact hinsert
    simp only [binaryEntries, hunique, entriesWhere_eq hlaw, bind, Except.bind, pure, Except.pure]
    simp [Abstract.binary, OrderedSet.symmDiff, OrderedSet.diff, OrderedSet.filter]

omit [∀ a b : K, Decidable (a ≈ b)] in
theorem hashable_filter {p : K → Bool} (hs : ∀ entry ∈ s.entries, Hashable ops entry) :
    ∀ entry ∈ (s.filter p).entries, Hashable ops entry :=
  fun entry hentry ↦ hs entry (List.mem_of_mem_filter hentry)

theorem binary_hashable (op : BinaryOp) (hs : ∀ entry ∈ s.entries, Hashable ops entry)
    (ht : ∀ entry ∈ t.entries, Hashable ops entry) :
    ∀ entry ∈ (Abstract.binary op s t).entries, Hashable ops entry := by
  cases op with
  | union => exact ofItems_hashable "" hs (ofItems_of_hashable ht)
  | intersection => exact hashable_filter hs
  | difference => exact hashable_filter hs
  | symmetricDifference =>
    intro entry hentry
    rcases List.mem_append.mp hentry with hleft | hright
    · exact hashable_filter hs entry hleft
    · exact hashable_filter ht entry hright

/-- Equal lengths and the subset scan decide the equality of the element sets. -/
theorem equal_eq (hlaw : LawfulElements ops) (s t : OrderedSet K) :
    (if s.entries.length = t.entries.length then
        entriesSubset ops t.entries s.entries
      else
        .ok false) = .ok (decide (s.elements = t.elements)) := by
  rw [entriesSubset_eq hlaw]
  simp only [OrderedSet.elements_eq_iff]
  split
  · rename_i hlen
    simp [hlen]
  · rename_i hlen
    simp [hlen]

theorem strict_eq (hlaw : LawfulElements ops) (s t : OrderedSet K) :
    (if s.entries.length < t.entries.length then
        entriesSubset ops t.entries s.entries
      else
        .ok false) = .ok (decide (s.elements ⊂ t.elements)) := by
  rw [entriesSubset_eq hlaw]
  simp only [OrderedSet.elements_ssubset_iff]
  split
  · rename_i hlen
    simp [hlen]
  · rename_i hlen
    simp [hlen]

end Combine

/-! ## Calls -/

section Calls

/-- The two levels return the same and the heap holds the store afterwards. -/
structure Agrees [Setoid K] {α : Type*} (ops : ElementOps K) (x : α × List (SetObject K))
    (y : α × List (Flavor × OrderedSet K)) : Prop where
  reply : x.1 = y.1
  holds : HeapHolds ops x.2 y.2

variable {α : Type*}

theorem Agrees.map [Setoid K] {β : Type*} {ops : ElementOps K} {x : α × List (SetObject K)}
    {y : α × List (Flavor × OrderedSet K)} (h : Agrees ops x y) (f : α → β) :
    Agrees ops (x.map f id) (y.map f id) where
  reply := congrArg f h.reply
  holds := h.holds

variable [Setoid K] {ops : ElementOps K} {heap : List (SetObject K)}
  {store : List (Flavor × OrderedSet K)}

/-- A pair of snapshots is a pair of abstract sets. -/
theorem withSnapshots_eq (h : HeapHolds ops heap store) (left right : ℕ)
    {f : List K → List K → Except Fault α} {g : OrderedSet K → OrderedSet K → Except Fault α}
    (hfg : ∀ flavor s flavor' t, store[left]? = some (flavor, s) →
      store[right]? = some (flavor', t) → f s.entries t.entries = g s t) :
    withSnapshots heap left right f = Abstract.withSets store left right g := by
  unfold withSnapshots Abstract.withSets entriesSnapshot
  rcases h.lookup left with ⟨hl, hl'⟩ | ⟨l, ⟨flavor, s⟩, hl, hl', hrep⟩
  · simp only [hl, hl']
  · rcases h.lookup right with ⟨hr, hr'⟩ | ⟨r, ⟨flavor', t⟩, hr, hr', hrep'⟩
    · simp only [hl, hl', hr, hr']
    · simp only [hl, hl', hr, hr', hrep.holds.entries_eq, hrep'.holds.entries_eq]
      exact hfg flavor s flavor' t hl' hr'

theorem HeapHolds.hashable (h : HeapHolds ops heap store) {i : ℕ} {flavor : Flavor}
    {s : OrderedSet K} (hi : store[i]? = some (flavor, s)) :
    ∀ entry ∈ s.entries, Hashable ops entry := by
  rcases h.lookup i with ⟨_, hnone⟩ | ⟨object, abstract, _, habstract, hrep⟩
  · simp [hi] at hnone
  · rw [hi] at habstract
    cases habstract
    exact hrep.holds.entries_eq ▸ hrep.holds.stored.hashed

/-- An operation on the storage of a mutable set is lifted to the heap. -/
theorem onSet_refines (h : HeapHolds ops heap store) (set : ℕ)
    {f : PySet K → Except Fault α × PySet K} {g : OrderedSet K → α × OrderedSet K}
    (hfg : ∀ (storage : PySet K) s, Holds ops storage.entries storage.buckets s →
      ∃ storage' : PySet K, f storage = (.ok (g s).1, storage') ∧
        Holds ops storage'.entries storage'.buckets (g s).2) :
    Agrees ops (onSet heap set f) (Abstract.onSet store set g) := by
  unfold onSet Abstract.onSet
  rcases h.lookup set with ⟨hl, hl'⟩ | ⟨object, ⟨flavor, s⟩, hl, hl', hrep⟩
  · simp only [hl, hl']
    exact ⟨rfl, h⟩
  · have hflavor := hrep.flavor_eq
    cases object with
    | frozenset storage =>
      cases hflavor
      simp only [hl, hl']
      exact ⟨rfl, h⟩
    | set storage =>
      cases hflavor
      obtain ⟨storage', hf, hholds⟩ := hfg storage s hrep.holds
      simp only [hl, hl', hf]
      exact ⟨rfl, h.set set ⟨rfl, hholds⟩⟩

/-- A new object is allocated in the heap and in the store. -/
theorem alloc_refines (h : HeapHolds ops heap store) {built : Except Fault (SetObject K)}
    {abstract : Except Fault (Flavor × OrderedSet K)}
    (hbuilt : (∃ fault, built = .error fault ∧ abstract = .error fault) ∨
      ∃ object a, built = .ok object ∧ abstract = .ok a ∧ Represents ops object a) :
    Agrees ops (alloc heap built) (Abstract.alloc store abstract) := by
  rcases hbuilt with ⟨fault, rfl, rfl⟩ | ⟨object, a, rfl, rfl, hrep⟩
  · exact ⟨rfl, h⟩
  · exact ⟨congrArg Except.ok h.length_eq, h.push hrep⟩

variable [∀ a b : K, Decidable (a ≈ b)]

theorem ponBuildSet_refines (hlaw : LawfulElements ops) (h : HeapHolds ops heap store)
    (items : List (Option K)) :
    Agrees ops (ponBuildSet ops heap items) (Abstract.alloc store
      ((Abstract.ofItems ops "set item is NULL" .empty items).map (Flavor.set, ·))) := by
  have hnone : ∀ entry ∈ (OrderedSet.empty : OrderedSet K).entries, Hashable ops entry := by
    simp [OrderedSet.empty]
  have hcollect := collect_eq hlaw items hnone
  have hstart : prehashed ops (OrderedSet.empty : OrderedSet K) = [] := rfl
  rw [hstart] at hcollect
  apply alloc_refines h
  rw [hcollect]
  cases hitems : Abstract.ofItems ops "set item is NULL" .empty items with
  | error fault => exact Or.inl ⟨fault, rfl, rfl⟩
  | ok s =>
    obtain ⟨storage, hfill, hholds⟩ := setFillPrehashed_eq (ofItems_hashable _ hnone hitems)
    refine Or.inr ⟨.set storage, (.set, s), ?_, rfl, ⟨rfl, hholds⟩⟩
    simp [Except.map, bind, Except.bind, pure, Except.pure, hfill]

theorem ponBuildFrozenset_refines (hlaw : LawfulElements ops) (h : HeapHolds ops heap store)
    (items : List (Option K)) :
    Agrees ops (ponBuildFrozenset ops heap items) (Abstract.alloc store
      ((Abstract.ofItems ops "cannot hash NULL object" .empty items).map (Flavor.frozenset, ·))) := by
  have hnone : ∀ entry ∈ (OrderedSet.empty : OrderedSet K).entries, Hashable ops entry := by
    simp [OrderedSet.empty]
  have hunique : uniqueEntries ops items = _ := insertUniqueEntries_eq (s := .empty) hlaw items
  apply alloc_refines h
  rw [hunique]
  cases hitems : Abstract.ofItems ops "cannot hash NULL object" .empty items with
  | error fault => exact Or.inl ⟨fault, rfl, rfl⟩
  | ok s =>
    exact Or.inr ⟨_, (.frozenset, s), rfl, rfl,
      ⟨rfl, holds_of_hashable (ofItems_hashable _ hnone hitems)⟩⟩

theorem ponSetBinary_refines (hlaw : LawfulElements ops) (h : HeapHolds ops heap store)
    (op : BinaryOp) (left right : ℕ) :
    Agrees ops (ponSetBinary ops heap op left right) (Abstract.alloc store
      (Abstract.withSets store left right fun s t ↦
        .ok (((store[left]?).map Prod.fst).getD .set, Abstract.binary op s t))) := by
  apply alloc_refines h
  unfold withSnapshots Abstract.withSets entriesSnapshot
  rcases h.lookup left with ⟨hl, hl'⟩ | ⟨l, ⟨flavor, s⟩, hl, hl', hrep⟩
  · exact Or.inl ⟨.error "expected set or frozenset object", by simp only [hl], by simp only [hl']⟩
  · rcases h.lookup right with ⟨hr, hr'⟩ | ⟨r, ⟨flavor', t⟩, hr, hr', hrep'⟩
    · exact Or.inl ⟨.error "expected set or frozenset object", by simp only [hl, hr],
        by simp only [hl', hr']⟩
    · have hentries := binaryEntries_eq (s := s) hlaw op (h.hashable hr')
      have hholds := holds_of_hashable (binary_hashable op (h.hashable hl') (h.hashable hr'))
      refine Or.inr ⟨buildSetFromEntries l (Abstract.binary op s t).entries,
        (flavor, Abstract.binary op s t), ?_, ?_, ?_⟩
      · simp only [hl, hr, hrep.holds.entries_eq, hrep'.holds.entries_eq, hentries, bind,
          Except.bind, pure, Except.pure]
      · simp only [hl', hr', Option.map_some, Option.getD_some]
      · cases l with
        | set storage => exact ⟨hrep.flavor_eq, hholds⟩
        | frozenset storage => exact ⟨hrep.flavor_eq, hholds⟩

/-- Forgetting whether the item was present. -/
theorem discard_eq (set : ℕ) (item : Option K) :
    Abstract.withItem store ops item
        (fun item ↦ Abstract.onSet store set fun s ↦ ((), s.remove item)) =
      (Abstract.withItem store ops item fun item ↦
        Abstract.onSet store set fun s ↦ (decide (item ∈ s), s.remove item)).map
          (Except.map fun _ ↦ ()) id := by
  cases item with
  | none => rfl
  | some item =>
    simp only [Abstract.withItem]
    cases hashSetElement ops (some item) with
    | error fault => rfl
    | ok hash =>
      unfold Abstract.onSet
      rcases store[set]? with _ | ⟨_ | _, s⟩ <;> rfl

theorem setEqual_refines (hlaw : LawfulElements ops) (h : HeapHolds ops heap store)
    (left right : ℕ) :
    setEqual ops heap left right = Abstract.withSets store left right fun s t ↦
      .ok (decide (s.elements = t.elements)) := by
  refine withSnapshots_eq h left right fun flavor s flavor' t _ _ ↦ ?_
  rw [← equal_eq hlaw, ite_not]

theorem setRichcmpBool_refines (hlaw : LawfulElements ops) (h : HeapHolds ops heap store)
    (left right : ℕ) (op : ℤ) :
    setRichcmpBool ops heap left right op =
      Abstract.withSets store left right (Abstract.compare op) := by
  refine withSnapshots_eq h left right fun flavor s flavor' t _ _ ↦ ?_
  simp only [equal_eq hlaw, strict_eq hlaw]
  simp only [entriesSubset_eq hlaw, Except.map, Abstract.compare]
  by_cases heq : op = richEq
  · simp [heq]
  · by_cases hne : op = richNe
    · simp [hne, richEq, richNe]
    · simp only [heq, hne, or_self, if_false]

variable [DecidableEq K]

section

variable (hlaw : LawfulElements ops) (h : HeapHolds ops heap store) (restarts set : ℕ)
  (item : Option K)
include hlaw h

theorem setAdd_refines :
    Agrees ops (setAdd ops (restarts + 1) heap set item) (Abstract.withItem store ops item
      fun item ↦ Abstract.onSet store set fun s ↦ ((), s.add item)) := by
  cases item with
  | none => exact ⟨rfl, h⟩
  | some item =>
    simp only [setAdd, Abstract.withItem]
    cases hhash : hashSetElement ops (some item) with
    | error fault => exact ⟨rfl, h⟩
    | ok hash =>
      exact onSet_refines h set fun storage s hholds ↦
        addHashed_spec hlaw hholds (hashSetElement_ok.mp hhash) restarts

theorem setRemove_refines :
    Agrees ops (setRemove ops (restarts + 1) heap set item) (Abstract.withItem store ops item
      fun item ↦ Abstract.onSet store set fun s ↦ (decide (item ∈ s), s.remove item)) := by
  cases item with
  | none => exact ⟨rfl, h⟩
  | some item =>
    simp only [setRemove, Abstract.withItem]
    cases hhash : hashSetElement ops (some item) with
    | error fault => exact ⟨rfl, h⟩
    | ok hash =>
      exact onSet_refines h set fun storage s hholds ↦
        removeHashed_spec hlaw hholds (hashSetElement_ok.mp hhash) restarts

theorem setDiscard_refines :
    Agrees ops (setDiscard ops (restarts + 1) heap set item) (Abstract.withItem store ops item
      fun item ↦ Abstract.onSet store set fun s ↦ ((), s.remove item)) := by
  rw [discard_eq]
  exact (setRemove_refines hlaw h restarts set item).map _

theorem setContains_refines :
    Agrees ops (setContains ops (restarts + 1) heap set item)
      (Abstract.withItem store ops item (Abstract.contains store set)) := by
  cases item with
  | none => exact ⟨rfl, h⟩
  | some item =>
    simp only [setContains, Abstract.withItem]
    cases hhash : hashSetElement ops (some item) with
    | error fault => exact ⟨rfl, h⟩
    | ok hash =>
      have hitem := hashSetElement_ok.mp hhash
      unfold Abstract.contains
      rcases h.lookup set with ⟨hl, hl'⟩ | ⟨object, ⟨flavor, s⟩, hl, hl', hrep⟩
      · simp only [hl, hl']
        exact ⟨rfl, h⟩
      · have hsame : store = store.set set (flavor, s) := by
          obtain ⟨hlt, hget⟩ := List.getElem?_eq_some_iff.mp hl'
          rw [← hget, List.set_getElem_self]
        cases object with
        | set storage =>
          obtain ⟨storage', hf, hholds⟩ := containsHashed_spec hlaw storage hrep.holds hitem restarts
          simp only [onSet, hl, hl', hf]
          refine ⟨rfl, ?_⟩
          rw [hsame]
          exact h.set set ⟨hrep.flavor_eq, hholds⟩
        | frozenset storage =>
          obtain ⟨storage', hf, hholds⟩ := frozensetContains_spec hlaw storage hrep.holds hitem
          simp only [hl, hl', hf]
          refine ⟨rfl, ?_⟩
          rw [hsame]
          exact h.set set ⟨hrep.flavor_eq, hholds⟩

end

theorem call_refines (hlaw : LawfulElements ops) (h : HeapHolds ops heap store)
    (restarts : ℕ) (c : Call K) :
    Agrees ops (call ops (restarts + 1) heap c) (Abstract.call store ops c) := by
  cases c with
  | buildSet items => exact (ponBuildSet_refines hlaw h items).map _
  | buildFrozenset items => exact (ponBuildFrozenset_refines hlaw h items).map _
  | binary op left right => exact (ponSetBinary_refines hlaw h op left right).map _
  | add set item => exact (setAdd_refines hlaw h restarts set item).map _
  | remove set item => exact (setRemove_refines hlaw h restarts set item).map _
  | discard set item => exact (setDiscard_refines hlaw h restarts set item).map _
  | pop set => exact (onSet_refines h set fun storage s hholds ↦ popStorage_spec hholds).map _
  | clear set =>
    refine (onSet_refines h set fun storage s _ ↦ ⟨_, rfl, rfl, ?_, Or.inl rfl⟩).map _
    simp
  | contains set item => exact (setContains_refines hlaw h restarts set item).map _
  | equal left right => exact ⟨congrArg Reply.answered (setEqual_refines hlaw h left right), h⟩
  | richcmp left right op =>
    have hisNone : ∀ i : ℕ, heap[i]?.isNone = store[i]?.isNone := by
      intro i
      rcases h.lookup i with ⟨hl, hl'⟩ | ⟨object, abstract, hl, hl', _⟩
      · rw [hl, hl']
        rfl
      · rw [hl, hl']
        rfl
    simp only [call, Abstract.call, setRichcmpSlot, setRichcmpBool_refines hlaw h, hisNone]
    split <;> exact ⟨rfl, h⟩

theorem run_refines (hlaw : LawfulElements ops) (restarts : ℕ) (calls : List (Call K))
    (h : HeapHolds ops heap store) :
    (run ops (restarts + 1) heap calls).1 = (Abstract.run ops store calls).1 ∧
      HeapHolds ops (run ops (restarts + 1) heap calls).2 (Abstract.run ops store calls).2 := by
  induction calls generalizing heap store with
  | nil => exact ⟨rfl, h⟩
  | cons c rest ih =>
    have hcall := call_refines hlaw h restarts c
    obtain ⟨hreplies, hholds⟩ := ih hcall.holds
    exact ⟨congrArg₂ List.cons hcall.reply hreplies, hholds⟩

end Calls

/-- Decimal residues: different numbers with the same last digit are equal, and hashes collide. -/
structure Residue where
  value : ℕ
deriving DecidableEq, Repr

instance : Setoid Residue where
  r a b := a.value % 10 = b.value % 10
  iseqv := ⟨fun _ ↦ rfl, Eq.symm, Eq.trans⟩

instance (a b : Residue) : Decidable (a ≈ b) :=
  inferInstanceAs (Decidable (a.value % 10 = b.value % 10))

def residueOps : ElementOps Residue where
  hashObject element := .ok (BitVec.ofNat 64 (element.value % 10 % 3))
  typeName _ := some "residue"
  objectEqual a b := .ok (decide (a ≈ b))

theorem residueOps_lawful : LawfulElements residueOps where
  decides _ _ := rfl
  hash_eq a b h := by
    have hsame : a.value % 10 = b.value % 10 := h
    simp [residueOps, hsame]

/-- Every sequence of calls replies as the insertion-ordered finite sets do, where a comparison is
equality, inclusion or strict inclusion of the sets of classes; the heap then holds the same sets in
the same order, and on each of them the hashed membership test answers as the linear scan. A single
pass of the lookup suffices, whatever the restart bound. -/
theorem set_refines [DecidableEq K] [Setoid K] [∀ a b : K, Decidable (a ≈ b)]
    {ops : ElementOps K} (hlaw : LawfulElements ops) (restarts : ℕ) (calls : List (Call K)) :
    (run ops (restarts + 1) [] calls).1 = (Abstract.run ops [] calls).1 ∧
      HeapHolds ops (run ops (restarts + 1) [] calls).2 (Abstract.run ops [] calls).2 ∧
      ∀ set entries item, entriesSnapshot (run ops (restarts + 1) [] calls).2 set = .ok entries →
        Hashable ops item →
        (setContains ops (restarts + 1) (run ops (restarts + 1) [] calls).2 set (some item)).1 =
          (findElementIndex ops item entries).map Option.isSome := by
  obtain ⟨hreplies, hholds⟩ := run_refines hlaw restarts calls (HeapHolds.nil ops)
  refine ⟨hreplies, hholds, fun set entries item hentries hitem ↦ ?_⟩
  rw [(setContains_refines hlaw hholds restarts set (some item)).reply]
  unfold entriesSnapshot at hentries
  rcases hholds.lookup set with ⟨hl, _⟩ | ⟨object, ⟨flavor, s⟩, hl, hl', hrep⟩
  · rw [hl] at hentries
    cases hentries
  · rw [hl] at hentries
    cases hentries
    simp only [Abstract.withItem, hitem.hashSetElement, Abstract.contains, hl',
      hrep.holds.entries_eq, findElementIndex_isSome hlaw]

/-- Elements 1 and 4 collide, 11 and 21 are equal to 1: a set keeps the first of equal elements, a
frozenset with other representatives compares equal to it. -/
theorem set_refines_collisions :
    (run residueOps 1 []
      [.buildSet [some ⟨1⟩, some ⟨4⟩, some ⟨11⟩], .buildFrozenset [some ⟨14⟩, some ⟨21⟩],
        .richcmp 0 1 richEq, .richcmp 0 1 richLt, .remove 0 (some ⟨31⟩),
        .richcmp 0 1 richLt]).1 =
      [.built (.ok 0), .built (.ok 1), .compared (.ok (some true)), .compared (.ok (some false)),
        .answered (.ok true), .compared (.ok (some true))] := by
  rw [(set_refines residueOps_lawful 0 _).1]
  rfl

end Pon.Set
