import Mathlib.Order.Bounds.Basic

/-!
# Single-entry regions of a graph

A region of a graph is entered only through its entry if the predecessors of all its other nodes are
inside. The nodes that an entry reaches through admissible nodes are pruned, one node with a
predecessor outside at a time, in any order; what is left once there is none to prune is the greatest
single-entry region of the entry.
-/

namespace Pon.Flow

open Relation

variable {N : Type*} (edge : N → N → Prop) (admissible : N → Prop) (entry : N)

/-- An edge between nodes of a set. -/
def Within (S : Set N) (source target : N) : Prop := source ∈ S ∧ target ∈ S ∧ edge source target

structure SingleEntry (S : Set N) : Prop where
  entry_mem : entry ∈ S
  admissible : ∀ n ∈ S, admissible n
  enclosed : ∀ n ∈ S, n ≠ entry → ∀ p, edge p n → p ∈ S
  connected : ∀ n ∈ S, ReflTransGen (Within edge S) entry n

/-- The nodes that the entry leads to through admissible nodes. -/
def Reached : Set N := {n | ReflTransGen (fun a b ↦ edge a b ∧ admissible b) entry n}

variable {edge admissible entry} {S : Set N}

theorem SingleEntry.subset_reached (h : SingleEntry edge admissible entry S) :
    S ⊆ Reached edge admissible entry := by
  intro n mem
  induction h.connected n mem with
  | refl => exact .refl
  | tail _ last ih => exact .tail (ih last.1) ⟨last.2.2, h.admissible _ last.2.1⟩

/-- Nodes whose predecessors are inside are reached inside. -/
theorem connected_of_enclosed (enclosed : ∀ n ∈ S, n ≠ entry → ∀ p, edge p n → p ∈ S) {n : N}
    (path : n ∈ Reached edge admissible entry) (mem : n ∈ S) :
    ReflTransGen (Within edge S) entry n := by
  induction path with
  | refl => exact .refl
  | @tail a b _ last ih =>
    by_cases isEntry : b = entry
    · rw [isEntry]
    · have inside : a ∈ S := enclosed b mem isEntry a last.1
      exact .tail (ih inside) ⟨inside, mem, last.1⟩

/-- What is left of the reached nodes once every other node has its predecessors inside is the
greatest single-entry region. -/
theorem isGreatest_of_enclosed (start : entry ∈ S) (ok : admissible entry)
    (reached : S ⊆ Reached edge admissible entry)
    (enclosed : ∀ n ∈ S, n ≠ entry → ∀ p, edge p n → p ∈ S)
    (upper : ∀ T, SingleEntry edge admissible entry T → T ⊆ S) :
    IsGreatest {T | SingleEntry edge admissible entry T} S := by
  refine ⟨⟨start, fun n mem ↦ ?_, enclosed, fun n mem ↦ ?_⟩, upper⟩
  · rcases (reached mem).cases_tail with rfl | ⟨_, _, last⟩
    · exact ok
    · exact last.2
  · exact connected_of_enclosed enclosed (reached mem) mem

end Pon.Flow
