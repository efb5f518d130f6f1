import Mathlib.Data.List.Basic

/-!
# Reachability and worklist tracing

A graph is given by pointers, each of which resolves to a node or to nothing, and by the pointers
that each node holds. A tracing collector keeps a set of marked nodes, a subset of scanned nodes and
a list of pointers that it still owes a visit. The invariant `Tracing` relates the three to
reachability from the roots; when no pointer is owed and every marked node is scanned, the marked
nodes are exactly the reachable ones.
-/

namespace Pon.Graph

variable {P B : Type*} (resolve : P → Option B) (children : B → List P)

/-- The nodes that the roots lead to. -/
inductive Reach (roots : List P) : B → Prop
  | root {p : P} {b : B} : p ∈ roots → resolve p = some b → Reach roots b
  | step {a b : B} {p : P} : Reach roots a → p ∈ children a → resolve p = some b → Reach roots b

/-- State of a trace: `owed` are the pointers found but not yet visited. -/
structure Tracing (roots : List P) (marked scanned : B → Prop) (owed : List P) : Prop where
  sound : ∀ b, marked b → Reach resolve children roots b
  owed_sound : ∀ p ∈ owed, ∀ b, resolve p = some b → Reach resolve children roots b
  roots_marked : ∀ p ∈ roots, ∀ b, resolve p = some b → marked b ∨ p ∈ owed
  scanned_closed : ∀ a, scanned a → ∀ p ∈ children a, ∀ b, resolve p = some b → marked b ∨ p ∈ owed

variable {resolve children}

theorem Reach.mono {roots roots' : List P} (hsub : ∀ p ∈ roots, p ∈ roots') {b : B}
    (h : Reach resolve children roots b) : Reach resolve children roots' b := by
  induction h with
  | root hp hb => exact .root (hsub _ hp) hb
  | step _ hp hb ih => exact .step ih hp hb

/-- A set that contains the resolved roots and is closed under following pointers contains every
reachable node. -/
theorem Reach.subset_closed {roots : List P} (closed : B → Prop)
    (hroots : ∀ p ∈ roots, ∀ b, resolve p = some b → closed b)
    (hstep : ∀ a, closed a → ∀ p ∈ children a, ∀ b, resolve p = some b → closed b) {b : B}
    (h : Reach resolve children roots b) : closed b := by
  induction h with
  | root hp hb => exact hroots _ hp _ hb
  | step _ hp hb ih => exact hstep _ ih _ hp _ hb

namespace Tracing

variable {roots owed : List P} {marked scanned : B → Prop}

theorem start (roots : List P) : Tracing resolve children roots (fun _ ↦ False) (fun _ ↦ False) roots where
  sound _ h := h.elim
  owed_sound _ hp _ hb := .root hp hb
  roots_marked _ hp _ _ := Or.inr hp
  scanned_closed _ h := h.elim

/-- Visit the first pointer owed: its node, if any, is marked. -/
theorem visit {p : P} {marked' : B → Prop} (h : Tracing resolve children roots marked scanned (p :: owed))
    (hmarked : ∀ b, marked' b ↔ marked b ∨ resolve p = some b) :
    Tracing resolve children roots marked' scanned owed where
  sound b hb := by
    rcases (hmarked b).mp hb with hold | hnew
    · exact h.sound b hold
    · exact h.owed_sound p (by simp) b hnew
  owed_sound q hq := h.owed_sound q (by simp [hq])
  roots_marked q hq b hb := by
    rcases h.roots_marked q hq b hb with hold | hmem
    · exact Or.inl ((hmarked b).mpr (Or.inl hold))
    · rcases List.mem_cons.mp hmem with rfl | hrest
      · exact Or.inl ((hmarked b).mpr (Or.inr hb))
      · exact Or.inr hrest
  scanned_closed a ha q hq b hb := by
    rcases h.scanned_closed a ha q hq b hb with hold | hmem
    · exact Or.inl ((hmarked b).mpr (Or.inl hold))
    · rcases List.mem_cons.mp hmem with rfl | hrest
      · exact Or.inl ((hmarked b).mpr (Or.inr hb))
      · exact Or.inr hrest

/-- Scan marked nodes: their pointers are owed a visit. -/
theorem scan {scanned' : B → Prop} {found : List P}
    (h : Tracing resolve children roots marked scanned owed)
    (hscanned : ∀ a, scanned' a → scanned a ∨ marked a ∧ ∀ p ∈ children a, p ∈ found)
    (hfound : ∀ p ∈ found, ∃ a, marked a ∧ p ∈ children a) :
    Tracing resolve children roots marked scanned' (found ++ owed) where
  sound := h.sound
  owed_sound p hp b hb := by
    rcases List.mem_append.mp hp with hmem | hmem
    · obtain ⟨a, ha, hpa⟩ := hfound p hmem
      exact .step (h.sound a ha) hpa hb
    · exact h.owed_sound p hmem b hb
  roots_marked p hp b hb := by
    rcases h.roots_marked p hp b hb with hold | hmem
    · exact Or.inl hold
    · exact Or.inr (List.mem_append.mpr (Or.inr hmem))
  scanned_closed a ha p hp b hb := by
    rcases hscanned a ha with hold | ⟨_, hall⟩
    · rcases h.scanned_closed a hold p hp b hb with hold | hmem
      · exact Or.inl hold
      · exact Or.inr (List.mem_append.mpr (Or.inr hmem))
    · exact Or.inr (List.mem_append.mpr (Or.inl (hall p hp)))

/-- More roots may be added at any time. -/
theorem addRoots (extra : List P) (h : Tracing resolve children roots marked scanned owed) :
    Tracing resolve children (roots ++ extra) marked scanned (extra ++ owed) where
  sound b hb := (h.sound b hb).mono fun p hp ↦ List.mem_append.mpr (Or.inl hp)
  owed_sound p hp b hb := by
    rcases List.mem_append.mp hp with hmem | hmem
    · exact .root (List.mem_append.mpr (Or.inr hmem)) hb
    · exact (h.owed_sound p hmem b hb).mono fun p hp ↦ List.mem_append.mpr (Or.inl hp)
  roots_marked p hp b hb := by
    rcases List.mem_append.mp hp with hmem | hmem
    · rcases h.roots_marked p hmem b hb with hold | howed
      · exact Or.inl hold
      · exact Or.inr (List.mem_append.mpr (Or.inr howed))
    · exact Or.inr (List.mem_append.mpr (Or.inl hmem))
  scanned_closed a ha p hp b hb := by
    rcases h.scanned_closed a ha p hp b hb with hold | howed
    · exact Or.inl hold
    · exact Or.inr (List.mem_append.mpr (Or.inr howed))

/-- At the end of a trace the marked nodes are the reachable ones. -/
theorem marked_iff (h : Tracing resolve children roots marked scanned [])
    (hscanned : ∀ b, marked b → scanned b) (b : B) : marked b ↔ Reach resolve children roots b := by
  constructor
  · exact h.sound b
  · intro hreach
    apply hreach.subset_closed marked
    · intro p hp b hb
      simpa using h.roots_marked p hp b hb
    · intro a ha p hp b hb
      simpa using h.scanned_closed a (hscanned a ha) p hp b hb

end Tracing

end Pon.Graph
