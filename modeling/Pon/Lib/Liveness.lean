import Mathlib.Algebra.Order.BigOperators.Group.Finset

/-!
# Liveness in a flow graph

A value is live at a node if some path from there reads it before a node on the path defines it. The
analysis goes over the nodes from the last one to the first, with every new set in use at once, until a
round changes nothing. It ends, and what it ends with are the live values.
-/

namespace Pon.Liveness

variable {N V : Type*} [DecidableEq N] [DecidableEq V]

/-- A flow graph, with the values that a node reads before it defines them and those that it defines. -/
structure FlowGraph (N V : Type*) where
  nodes : List N
  gen : N → Finset V
  kill : N → Finset V
  succ : N → List N

namespace FlowGraph

variable (g : FlowGraph N V)

inductive Live : N → V → Prop where
  | read {n v} : n ∈ g.nodes → v ∈ g.gen n → Live n v
  | pass {n m v} : n ∈ g.nodes → v ∉ g.kill n → m ∈ g.succ n → Live m v → Live n v

/-- The values that are live at the end of a node. -/
def out (live : N → Finset V) (n : N) : Finset V := (g.succ n).toFinset.biUnion live

def transfer (live : N → Finset V) (n : N) : Finset V := g.gen n ∪ (g.out live n \ g.kill n)

/-- One node of a round, with the flag that tells of a change. -/
def visit (n : N) (state : (N → Finset V) × Bool) : (N → Finset V) × Bool :=
  if state.1 n = g.transfer state.1 n then state
  else (Function.update state.1 n (g.transfer state.1 n), true)

def round (live : N → Finset V) : (N → Finset V) × Bool := g.nodes.foldr g.visit (live, false)

/-- Rounds until one changes nothing, up to a number of them. -/
def solve : ℕ → (N → Finset V) → Option (N → Finset V)
  | 0, _ => none
  | fuel + 1, live => if (g.round live).2 then solve fuel (g.round live).1 else some (g.round live).1

/-- The sets hold live values only, and no node has more of them than its successors account for. -/
structure Growing (live : N → Finset V) : Prop where
  le_transfer : ∀ n ∈ g.nodes, live n ⊆ g.transfer live n
  sound : ∀ n, ∀ v ∈ live n, g.Live n v

def allRead : Finset V := g.nodes.toFinset.biUnion g.gen

/-- The number of values that are still missing somewhere. -/
def missing (live : N → Finset V) : ℕ :=
  ∑ n ∈ g.nodes.toFinset, (g.allRead.card - (live n).card)

variable {g}

variable {n : N} {v : V} {live : N → Finset V}

theorem Live.mem_allRead (h : g.Live n v) : v ∈ g.allRead := by
  induction h with
  | read node read => exact Finset.mem_biUnion.mpr ⟨_, List.mem_toFinset.mpr node, read⟩
  | pass _ _ _ _ ih => exact ih

theorem mem_out : v ∈ g.out live n ↔ ∃ m ∈ g.succ n, v ∈ live m := by
  simp [out]

theorem mem_transfer :
    v ∈ g.transfer live n ↔ v ∈ g.gen n ∨ v ∉ g.kill n ∧ ∃ m ∈ g.succ n, v ∈ live m := by
  rw [transfer, Finset.mem_union, Finset.mem_sdiff, mem_out, and_comm (b := v ∉ g.kill n)]

theorem transfer_mono {live' : N → Finset V} (le : ∀ n, live n ⊆ live' n) (n : N) :
    g.transfer live n ⊆ g.transfer live' n := by
  intro v
  rw [mem_transfer, mem_transfer]
  rintro (read | ⟨kept, m, edge, mem⟩)
  · exact .inl read
  · exact .inr ⟨kept, m, edge, le m mem⟩

theorem growing_empty : g.Growing fun _ ↦ ∅ where
  le_transfer _ _ := Finset.empty_subset _
  sound _ _ mem := absurd mem (Finset.notMem_empty _)

section Update

variable {live : N → Finset V} {n : N} (h : g.Growing live)
include h

theorem Growing.le_update (node : n ∈ g.nodes) (m : N) :
    live m ⊆ Function.update live n (g.transfer live n) m := by
  rcases eq_or_ne m n with rfl | other
  · rw [Function.update_self]
    exact h.le_transfer m node
  · rw [Function.update_of_ne other]

theorem Growing.update (node : n ∈ g.nodes) :
    g.Growing (Function.update live n (g.transfer live n)) where
  le_transfer m mem := by
    have mono := transfer_mono (g := g) (h.le_update node) m
    rcases eq_or_ne m n with rfl | other
    · rwa [Function.update_self]
    · rw [Function.update_of_ne other]
      exact (h.le_transfer m mem).trans mono
  sound m v mem := by
    rcases eq_or_ne m n with rfl | other
    · rw [Function.update_self, mem_transfer] at mem
      rcases mem with read | ⟨kept, next, edge, mem⟩
      · exact .read node read
      · exact .pass node kept edge (h.sound next v mem)
    · rw [Function.update_of_ne other] at mem
      exact h.sound m v mem

theorem Growing.card_le (m : N) : (live m).card ≤ g.allRead.card :=
  Finset.card_le_card fun v mem ↦ (h.sound m v mem).mem_allRead

/-- A change adds a value. -/
theorem Growing.missing_update_lt (node : n ∈ g.nodes)
    (changed : live n ≠ g.transfer live n) :
    g.missing (Function.update live n (g.transfer live n)) < g.missing live := by
  have grown : (live n).card < (g.transfer live n).card :=
    Finset.card_lt_card (Finset.ssubset_iff_subset_ne.mpr ⟨h.le_transfer n node, changed⟩)
  have bound := (h.update node).card_le n
  rw [Function.update_self] at bound
  refine Finset.sum_lt_sum (fun m _ ↦ ?_) ⟨n, List.mem_toFinset.mpr node, ?_⟩
  · exact Nat.sub_le_sub_left (Finset.card_le_card (h.le_update node m)) _
  · rw [Function.update_self]
    omega

end Update

/-- What the visits of some nodes do: the sets keep growing, and the flag tells whether they have. -/
theorem Growing.foldr_visit (h : g.Growing live) {nodes : List N} (sub : ∀ n ∈ nodes, n ∈ g.nodes) :
    let state := nodes.foldr g.visit (live, false)
    g.Growing state.1 ∧
      (state.2 = false → state.1 = live ∧ ∀ n ∈ nodes, live n = g.transfer live n) ∧
      (state.2 = true → g.missing state.1 < g.missing live) := by
  induction nodes with
  | nil => exact ⟨h, fun _ ↦ ⟨rfl, nofun⟩, nofun⟩
  | cons n nodes ih =>
    obtain ⟨node, sub⟩ := List.forall_mem_cons.mp sub
    obtain ⟨growing, same, fewer⟩ := ih sub
    rw [List.foldr_cons]
    set state := nodes.foldr g.visit (live, false)
    by_cases stable : state.1 n = g.transfer state.1 n
    · rw [visit, if_pos stable]
      refine ⟨growing, fun unchanged ↦ ?_, fewer⟩
      obtain ⟨equal, rest⟩ := same unchanged
      rw [equal] at stable
      exact ⟨equal, List.forall_mem_cons.mpr ⟨stable, rest⟩⟩
    · rw [visit, if_neg stable]
      refine ⟨growing.update node, nofun, fun _ ↦ ?_⟩
      refine (growing.missing_update_lt node stable).trans_le ?_
      cases changed : state.2 with
      | false => rw [(same changed).1]
      | true => exact (fewer changed).le

/-- Where every node agrees with its successors, all live values have been found. -/
theorem Growing.mem_iff (h : g.Growing live) (stable : ∀ n ∈ g.nodes, live n = g.transfer live n) :
    v ∈ live n ↔ g.Live n v := by
  refine ⟨h.sound n v, fun found ↦ ?_⟩
  induction found with
  | read node read =>
    rw [stable _ node, mem_transfer]
    exact .inl read
  | pass node kept edge _ ih =>
    rw [stable _ node, mem_transfer]
    exact .inr ⟨kept, _, edge, ih⟩

/-- The analysis ends with the live values. -/
theorem Growing.solve_eq_some (h : g.Growing live) {fuel : ℕ} (enough : g.missing live < fuel) :
    ∃ result, g.solve fuel live = some result ∧ ∀ n v, v ∈ result n ↔ g.Live n v := by
  induction fuel generalizing live with
  | zero => cases enough
  | succ fuel ih =>
    obtain ⟨growing, same, fewer⟩ := h.foldr_visit fun n (mem : n ∈ g.nodes) ↦ mem
    rw [solve]
    cases changed : (g.round live).2 with
    | true => exact ih growing ((fewer changed).trans_le (Nat.le_of_lt_succ enough))
    | false =>
      obtain ⟨equal, stable⟩ := same changed
      refine ⟨_, rfl, fun n v ↦ ?_⟩
      change v ∈ (g.nodes.foldr g.visit (live, false)).1 n ↔ _
      rw [equal]
      exact h.mem_iff stable

end FlowGraph

end Pon.Liveness
