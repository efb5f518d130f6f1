import Pon.Class.Attribute

/-!
# Invalidation of version-guarded caches

A changed type and all types registered below it get new version tags. The walk over the registry ends
on every graph, cycles included, and meets each type below once. A tag is a 32-bit counter: a record
that was made before a change misses its guard until the type has been changed `2 ^ 32` times.
-/

namespace Pon.Attr

open Relation

section Walk

variable {subclasses : List (TypeId × TypeId)}

/-- The types that registered edges lead to, the type itself included. -/
def Below (subclasses : List (TypeId × TypeId)) : TypeId → TypeId → Prop :=
  ReflTransGen fun base derived ↦ (base, derived) ∈ subclasses

theorem mem_childrenOf {base derived : TypeId} :
    derived ∈ childrenOf subclasses base ↔ (base, derived) ∈ subclasses := by
  simp only [childrenOf, List.mem_filterMap, Prod.exists, Option.ite_none_right_eq_some,
    Option.some.injEq]
  constructor
  · rintro ⟨b, d, mem, rfl, rfl⟩
    exact mem
  · exact fun mem ↦ ⟨base, derived, mem, rfl, rfl⟩

/-- The types that are pending or have been seen are below `t`, with `t` among them and the types
registered under a type that has been seen. -/
structure Walks (subclasses : List (TypeId × TypeId)) (t : TypeId) (pending seen : List TypeId) :
    Prop where
  start : t ∈ pending ∨ t ∈ seen
  below : ∀ s, s ∈ pending ∨ s ∈ seen → Below subclasses t s
  closed : ∀ base ∈ seen, ∀ derived, (base, derived) ∈ subclasses → derived ∈ pending ∨ derived ∈ seen
  nodup : seen.Nodup

theorem Walks.collect {t : TypeId} {pending seen : List TypeId} (walks : Walks subclasses t pending seen) :
    Walks subclasses t [] (collectSubclasses subclasses pending seen) := by
  induction pending, seen using collectSubclasses.induct subclasses with
  | case1 seen => rwa [collectSubclasses]
  | case2 seen address rest old ih =>
    rw [collectSubclasses, if_pos old]
    have keep : ∀ s, s ∈ address :: rest ∨ s ∈ seen → s ∈ rest ∨ s ∈ seen := by
      rintro s (pending | seen)
      · rcases List.mem_cons.mp pending with rfl | rest
        · exact .inr old
        · exact .inl rest
      · exact .inr seen
    exact ih
      { start := keep t walks.start
        below := fun s mem ↦ walks.below s (mem.imp_left (List.mem_cons_of_mem _))
        closed := fun base mem derived edge ↦ keep derived (walks.closed base mem derived edge)
        nodup := walks.nodup }
  | case3 seen address rest new ih =>
    rw [collectSubclasses, if_neg new]
    have keep : ∀ s, s ∈ address :: rest ∨ s ∈ seen →
        s ∈ (childrenOf subclasses address).reverse ++ rest ∨ s ∈ address :: seen := by
      rintro s (pending | seen)
      · rcases List.mem_cons.mp pending with rfl | rest
        · exact .inr List.mem_cons_self
        · exact .inl (List.mem_append_right _ rest)
      · exact .inr (List.mem_cons_of_mem _ seen)
    refine ih ⟨keep t walks.start, fun s mem ↦ ?_, fun base mem derived edge ↦ ?_,
      List.nodup_cons.mpr ⟨new, walks.nodup⟩⟩
    · have here : Below subclasses t address := walks.below address (.inl List.mem_cons_self)
      rcases mem with pending | seen
      · rcases List.mem_append.mp pending with child | pending
        · exact here.tail (mem_childrenOf.mp (List.mem_reverse.mp child))
        · exact walks.below s (.inl (List.mem_cons_of_mem _ pending))
      · rcases List.mem_cons.mp seen with rfl | seen
        · exact here
        · exact walks.below s (.inr seen)
    · rcases List.mem_cons.mp mem with rfl | mem
      · have child := List.mem_reverse.mpr (mem_childrenOf.mpr edge)
        exact .inl (List.mem_append_left _ child)
      · exact keep derived (walks.closed base mem derived edge)

theorem walks_collectSubclasses (t : TypeId) :
    Walks subclasses t [] (collectSubclasses subclasses [t] []) := by
  apply Walks.collect
  refine ⟨.inl (List.mem_singleton_self t), fun s mem ↦ ?_, nofun, List.nodup_nil⟩
  rw [List.mem_singleton.mp (mem.resolve_right List.not_mem_nil)]
  exact .refl

/-- The walk from a type meets the types below it and no others. -/
theorem mem_collectSubclasses_iff {t s : TypeId} :
    s ∈ collectSubclasses subclasses [t] [] ↔ Below subclasses t s := by
  have walks : Walks subclasses t [] (collectSubclasses subclasses [t] []) := walks_collectSubclasses t
  refine ⟨fun mem ↦ walks.below s (.inr mem), fun below ↦ ?_⟩
  induction below with
  | refl => exact walks.start.resolve_left List.not_mem_nil
  | tail _ edge ih => exact (walks.closed _ ih _ edge).resolve_left List.not_mem_nil

/-- A changed type and the types registered under it are collected. -/
theorem mem_collectSubclasses_start {t s : TypeId} (below : s = t ∨ (t, s) ∈ subclasses) :
    s ∈ collectSubclasses subclasses [t] [] := by
  rw [mem_collectSubclasses_iff]
  rcases below with rfl | edge
  · exact .refl
  · exact .single edge

instance (t s : TypeId) : Decidable (Below subclasses t s) :=
  decidable_of_iff _ mem_collectSubclasses_iff

end Walk

/-- The registry of subclasses, the tag of each type object and the epoch kept beside it. A null
pointer is the address zero. -/
structure TypeTable where
  subclasses : List (TypeId × TypeId)
  versionTag : TypeId → UInt32
  versionEpoch : TypeId → UInt64

/-- A change of the registry or of a type. -/
inductive Mutation where
  | registerSubclass (base derived : TypeId)
  | typeModified (t : TypeId)

namespace TypeTable

variable (w : TypeTable)

def registerSubclass (base derived : TypeId) : TypeTable :=
  if base = 0 ∨ derived = 0 ∨ base = derived ∨ (base, derived) ∈ w.subclasses then w
  else { w with subclasses := w.subclasses ++ [(base, derived)] }

def bumpVersion (t : TypeId) : TypeTable :=
  { w with
    versionTag := Function.update w.versionTag t (w.versionTag t + 1)
    versionEpoch := Function.update w.versionEpoch t (w.versionEpoch t + 1) }

def typeModified (t : TypeId) : TypeTable :=
  if t = 0 then w else (collectSubclasses w.subclasses [t] []).foldl bumpVersion w

def apply : Mutation → TypeTable
  | .registerSubclass base derived => w.registerSubclass base derived
  | .typeModified t => w.typeModified t

def run (mutations : List Mutation) : TypeTable := mutations.foldl apply w

/-- How many mutations of a run change the type `s` or a type that it is registered below. -/
def bumps (s : TypeId) : TypeTable → List Mutation → ℕ
  | _, [] => 0
  | w, .registerSubclass base derived :: rest => bumps s (w.registerSubclass base derived) rest
  | w, .typeModified t :: rest =>
    (if t ≠ 0 ∧ Below w.subclasses t s then 1 else 0) + bumps s (w.typeModified t) rest

variable {w} {s : TypeId} {types : List TypeId}

theorem foldl_bumpVersion_of_not_mem (other : s ∉ types) :
    (types.foldl bumpVersion w).versionTag s = w.versionTag s ∧
      (types.foldl bumpVersion w).versionEpoch s = w.versionEpoch s := by
  induction types generalizing w with
  | nil => exact ⟨rfl, rfl⟩
  | cons t types ih =>
    obtain ⟨notHead, notTail⟩ := not_or.mp fun h ↦ other (List.mem_cons.mpr h)
    rw [List.foldl_cons, (ih notTail).1, (ih notTail).2]
    exact ⟨Function.update_of_ne notHead .., Function.update_of_ne notHead ..⟩

theorem foldl_bumpVersion_of_mem (nodup : types.Nodup)
    (mem : s ∈ types) :
    (types.foldl bumpVersion w).versionTag s = w.versionTag s + 1 ∧
      (types.foldl bumpVersion w).versionEpoch s = w.versionEpoch s + 1 := by
  induction types generalizing w with
  | nil => exact absurd mem List.not_mem_nil
  | cons t types ih =>
    obtain ⟨notTail, nodup⟩ := List.nodup_cons.mp nodup
    rw [List.foldl_cons]
    rcases List.mem_cons.mp mem with rfl | tail
    · obtain ⟨tag, epoch⟩ := foldl_bumpVersion_of_not_mem (w := w.bumpVersion s) notTail
      rw [tag, epoch]
      exact ⟨Function.update_self .., Function.update_self ..⟩
    · have other : s ≠ t := fun same ↦ notTail (same ▸ tail)
      rw [(ih nodup tail).1, (ih nodup tail).2]
      exact ⟨congrArg (· + 1) (Function.update_of_ne other ..),
        congrArg (· + 1) (Function.update_of_ne other ..)⟩

variable {t : TypeId}

/-- A change gives a new tag and a new epoch to each type below, once. -/
theorem typeModified_below (nonnull : t ≠ 0) (below : Below w.subclasses t s) :
    (w.typeModified t).versionTag s = w.versionTag s + 1 ∧
      (w.typeModified t).versionEpoch s = w.versionEpoch s + 1 := by
  rw [typeModified, if_neg nonnull]
  exact foldl_bumpVersion_of_mem (walks_collectSubclasses _).nodup (mem_collectSubclasses_iff.mpr below)

theorem typeModified_elsewhere (other : ¬(t ≠ 0 ∧ Below w.subclasses t s)) :
    (w.typeModified t).versionTag s = w.versionTag s ∧
      (w.typeModified t).versionEpoch s = w.versionEpoch s := by
  unfold typeModified
  split_ifs with null
  · exact ⟨rfl, rfl⟩
  · refine foldl_bumpVersion_of_not_mem fun mem ↦ other ⟨null, ?_⟩
    exact mem_collectSubclasses_iff.mp mem

theorem versionTag_registerSubclass (base derived : TypeId) :
    (w.registerSubclass base derived).versionTag = w.versionTag := by
  unfold registerSubclass
  split_ifs <;> rfl

/-- A run counts the changes of a type in its tag, which wraps around. -/
theorem versionTag_run (s : TypeId) (mutations : List Mutation) :
    (w.run mutations).versionTag s = w.versionTag s + UInt32.ofNat (bumps s w mutations) := by
  induction mutations generalizing w with
  | nil => exact (UInt32.add_zero _).symm
  | cons mutation rest ih =>
    have step : w.run (mutation :: rest) = (w.apply mutation).run rest := rfl
    rw [step, ih]
    cases mutation with
    | registerSubclass base derived =>
      rw [apply, versionTag_registerSubclass, bumps]
    | typeModified t =>
      rw [apply, bumps]
      split_ifs with below
      · rw [(typeModified_below below.1 below.2).1, UInt32.ofNat_add, UInt32.add_assoc]
        rfl
      · rw [(typeModified_elsewhere below).1, Nat.zero_add]

/-- The guard of a record passes again exactly when the tag has come around. -/
theorem attrHit_run_iff {ic : AttrIC}
    (recorded : ic.typeVersion = (w.versionTag s).toNat) (mutations : List Mutation) :
    FeedbackCell.attrHit (some (s, ic)) s ((w.run mutations).versionTag s).toNat = none ↔
      ¬2 ^ 32 ∣ bumps s w mutations := by
  have live : ((w.run mutations).versionTag s).toNat =
      ((w.versionTag s).toNat + bumps s w mutations) % 2 ^ 32 := by
    rw [versionTag_run, UInt32.toNat_add, UInt32.toNat_ofNat', Nat.add_mod_mod]
  have bound := (w.versionTag s).toNat_lt
  rw [live, Nat.dvd_iff_mod_eq_zero]
  simp only [FeedbackCell.attrHit, Option.bind_some, true_and, recorded, ite_eq_right_iff,
    reduceCtorEq, imp_false]
  omega

theorem bumps_append (s : TypeId) (first second : List Mutation) :
    bumps s w (first ++ second) = bumps s w first + bumps s (w.run first) second := by
  induction first generalizing w with
  | nil => exact (Nat.zero_add _).symm
  | cons mutation first ih =>
    cases mutation with
    | registerSubclass base derived => exact ih
    | typeModified t =>
      rw [List.cons_append, bumps, ih, bumps, Nat.add_assoc]
      rfl

/-- `type_modified` ends on every registry and gives one new tag to each type below the changed one,
and to no other. A record made before the call misses its guard after it as long as its type has been
changed fewer than `2 ^ 32` times since. -/
theorem typeModified_invalidates (w : TypeTable) {t : TypeId} (nonnull : t ≠ 0) :
    (∀ s, Below w.subclasses t s →
      (w.typeModified t).versionTag s = w.versionTag s + 1 ∧
        (w.typeModified t).versionEpoch s = w.versionEpoch s + 1) ∧
    (∀ s, ¬Below w.subclasses t s →
      (w.typeModified t).versionTag s = w.versionTag s ∧
        (w.typeModified t).versionEpoch s = w.versionEpoch s) ∧
    ∀ (start : TypeTable) (before after : List Mutation) (s : TypeId) (ic : AttrIC),
      start.run before = w → Below w.subclasses t s →
      ic.typeVersion = (start.versionTag s).toNat →
      bumps s start (before ++ .typeModified t :: after) < 2 ^ 32 →
      FeedbackCell.attrHit (some (s, ic)) s
        ((start.run (before ++ .typeModified t :: after)).versionTag s).toNat = none := by
  refine ⟨fun s below ↦ typeModified_below nonnull below,
    fun s other ↦ typeModified_elsewhere fun h ↦ other h.2, ?_⟩
  rintro start before after s ic rfl below recorded few
  refine (attrHit_run_iff recorded _).mpr fun multiple ↦ ?_
  have counted : 0 < bumps s start (before ++ .typeModified t :: after) := by
    rw [bumps_append, bumps, if_pos ⟨nonnull, below⟩]
    omega
  exact absurd (Nat.le_of_dvd counted multiple) (Nat.not_le_of_lt few)

/-- Two classes that are registered below each other, and a third one below both. -/
def cyclicTable : TypeTable where
  subclasses := [(1, 2), (2, 1), (1, 3), (2, 3)]
  versionTag := fun _ ↦ 1
  versionEpoch := fun _ ↦ 0

theorem typeModified_invalidates_cyclic :
    (cyclicTable.typeModified 1).versionTag 3 = 2 ∧
      FeedbackCell.attrHit (some (3, ⟨1, .dictOffset, 0, none⟩)) 3
        ((cyclicTable.run [.typeModified 1]).versionTag 3).toNat = none := by
  have below : Below cyclicTable.subclasses 1 3 := .single (by decide)
  have invalidates := typeModified_invalidates cyclicTable (t := 1) (by decide)
  refine ⟨(invalidates.1 3 below).1, ?_⟩
  refine invalidates.2.2 cyclicTable [] [] 3 ⟨1, .dictOffset, 0, none⟩ rfl below rfl ?_
  have one : bumps 3 cyclicTable [.typeModified 1] ≤ 1 := by
    rw [bumps, bumps]
    split_ifs <;> omega
  exact Nat.lt_of_le_of_lt one (by decide)

theorem bumps_replicate (w : TypeTable) (nonnull : t ≠ 0) (n : ℕ) :
    bumps t w (List.replicate n (.typeModified t)) = n := by
  induction n generalizing w with
  | zero => rfl
  | succ n ih => rw [List.replicate_succ, bumps, ih, if_pos ⟨nonnull, .refl⟩, Nat.add_comm]

/-- After `2 ^ 32` changes of a type, a record made before the first one passes its guard. -/
theorem stale_record_hits :
    ∃ (w : TypeTable) (after : List Mutation) (ic : AttrIC),
      Below w.subclasses 1 1 ∧ ic.typeVersion = (w.versionTag 1).toNat ∧
      FeedbackCell.attrHit (some (1, ic)) 1
        ((w.run (.typeModified 1 :: after)).versionTag 1).toNat ≠ none := by
  refine ⟨cyclicTable, List.replicate (2 ^ 32 - 1) (.typeModified 1), ⟨1, .dictOffset, 0, none⟩,
    .refl, rfl, ?_⟩
  rw [← List.replicate_succ]
  intro misses
  refine (attrHit_run_iff rfl _).mp misses ?_
  rw [bumps_replicate cyclicTable (by decide)]
  decide

end TypeTable

end Pon.Attr
