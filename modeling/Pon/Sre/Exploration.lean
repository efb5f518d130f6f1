import Pon.Sre.Backtracking

/-!
# What a search explores

A search goes from alternative to alternative until it stops. What is demanded of the assertions that it
comes to is stated along the tree.
-/

namespace Pon.Sre

open Alternatives

/-- The iterations of a repeat that are begun, with the number of iterations before. -/
inductive Visits (run : MatchState → List MatchState) (min cap : ℕ) (state : MatchState) :
    ℕ → MatchState → Prop
  | start : Visits run min cap state 0 state
  | next {count : ℕ} {current following : MatchState} (visits : Visits run min cap state count current)
      (more : count < cap) (found : following ∈ run current)
      (goesOn : ¬(following.pos = current.pos ∧ min ≤ count)) :
      Visits run min cap state (count + 1) following

section Explored

variable (semantics : Semantics) (asserted : (MatchState → Bool) → List MatchState → Prop) (table : CharTable)
  (subject : List Word)

mutual

/-- The demand is met wherever a search comes to in a node, and where it goes on from the node it meets
what is next. -/
def Node.Explored : Node → MatchState → (MatchState → Bool) → (MatchState → Prop) → Prop
  | .groupRefExists group yes no, state, stop, next =>
      if groupIsMatched state group then Explored yes state stop next else Explored no state stop next
  | .branch branches, state, stop, next => BranchExplored branches state stop next
  | .repeat_ body min max kind, state, stop, next =>
      let bound := iterationBound subject state min (max.map Subtype.val)
      (∀ count current, Visits (ends semantics table subject body) min bound state count current → count < bound →
        Explored body current (fun _ ↦ false) fun _ ↦ True) ∧
      Until stop next ((Node.repeat_ body min max kind).ends semantics table subject state)
  | .assert positive width body, state, stop, next =>
      let node := Node.assert positive width body
      (width ≤ state.pos →
        Explored body { state with pos := state.pos - width } (fun _ ↦ false) (fun _ ↦ True)) ∧
      (positive → asserted stop (node.ends semantics table subject state)) ∧
      Until stop next (node.ends semantics table subject state)
  | .atomic body, state, stop, next =>
      Explored body state (fun _ ↦ true) (fun _ ↦ True) ∧
      Until stop next ((Node.atomic body).ends semantics table subject state)
  | node, state, stop, next => Until stop next (node.ends semantics table subject state)

def Explored : List Node → MatchState → (MatchState → Bool) → (MatchState → Prop) → Prop
  | [], state, _, next => next state
  | node :: rest, state, stop, next =>
      node.Explored state (fun following ↦ (ends semantics table subject rest following).any stop)
        fun following ↦ Explored rest following stop next

/-- A later branch is tried only where the earlier ones do not stop the search. -/
def BranchExplored : List (List Node) → MatchState → (MatchState → Bool) → (MatchState → Prop) → Prop
  | [], _, _, _ => True
  | branch :: rest, state, stop, next =>
      Explored branch state stop next ∧
        ((ends semantics table subject branch state).any stop = false → BranchExplored rest state stop next)

end

end Explored

section Tried

variable {semantics : Semantics} {asserted : (MatchState → Bool) → List MatchState → Prop} {table : CharTable}
  {subject : List Word}

mutual

theorem Node.Explored.tried {node : Node} {state : MatchState} {stop : MatchState → Bool}
    {next : MatchState → Prop} (explored : node.Explored semantics asserted table subject state stop next) :
    Until stop next (node.ends semantics table subject state) := by
  cases node with
  | literal | notLiteral | any | at_ | in_ | mark | groupRef => exact explored
  | groupRefExists group yes no =>
    unfold Node.Explored at explored
    unfold Node.ends
    split_ifs at explored ⊢
    · exact explored.tried
    · exact explored.tried
  | branch branches =>
    unfold Node.Explored at explored
    unfold Node.ends
    exact explored.tried
  | repeat_ => exact explored.2
  | assert => exact explored.2.2
  | atomic => exact explored.2

theorem Explored.tried {nodes : List Node} {state : MatchState} {stop : MatchState → Bool}
    {next : MatchState → Prop} (explored : Explored semantics asserted table subject nodes state stop next) :
    Until stop next (ends semantics table subject nodes state) := by
  cases nodes with
  | nil => exact ⟨explored, fun _ ↦ trivial⟩
  | cons node rest =>
    unfold ends
    exact Until.flatMap (Node.Explored.tried explored |>.mono fun following later ↦ later.tried)

theorem BranchExplored.tried {branches : List (List Node)} {state : MatchState} {stop : MatchState → Bool}
    {next : MatchState → Prop}
    (explored : BranchExplored semantics asserted table subject branches state stop next) :
    Until stop next (branchEnds semantics table subject branches state) := by
  cases branches with
  | nil => trivial
  | cons branch rest => exact explored.1.tried.append fun goesOn ↦ (explored.2 goesOn).tried

end

end Tried

end Pon.Sre
