import Pon.Lib.Alternatives
import Pon.Sre.Bounds

/-!
# Backtracking without limits

What a tree means: the end states of a sequence of nodes from a state on, the preferred one first. Each
node is followed by the rest of the sequence at each of its own end states in turn. How a repeat
enumerates its end states and which end states of a positive assertion count are parameters.
-/

namespace Pon.Sre

structure Semantics where
  /-- The end states of a repeat of a body, at least and at most a number of times. -/
  repeated : (MatchState → List MatchState) → ℕ → ℕ → Bool → MatchState → List MatchState
  /-- The end states of the body of a positive assertion that count. -/
  asserted : List MatchState → List MatchState

/-- The bound on the iterations; without a maximum, no iteration moves on behind it. -/
def iterationBound (subject : List Word) (state : MatchState) (min : ℕ) (max : Option ℕ) : ℕ :=
  max.getD (subject.length - state.pos + min + 1)

section Ends

variable (semantics : Semantics) (table : CharTable) (subject : List Word)

mutual

/-- The end states of a node. -/
def Node.ends : Node → MatchState → List MatchState
  | .literal value case, state =>
      if matchesLiteral table subject[state.pos]? value case then [state.advance] else []
  | .notLiteral value case, state =>
      if state.pos < subject.length ∧ !matchesLiteral table subject[state.pos]? value case then
        [state.advance] else []
  | .any all, state => if (subject[state.pos]?).any fun unit ↦ all || unit != 10 then [state.advance] else []
  | .at_ position, state => if atMatches table subject position state.pos then [state] else []
  | .in_ set case, state =>
      if (subject[state.pos]?).any fun unit ↦ set.matches table unit case then [state.advance] else []
  | .mark index, state => [state.setMark index]
  | .groupRef group case, state => (matchGroupRef table subject state group case).toList
  | .groupRefExists group yes no, state => if groupIsMatched state group then ends yes state else ends no state
  | .branch branches, state => branchEnds branches state
  | .repeat_ body min max kind, state =>
      let bound := iterationBound subject state min (max.map Subtype.val)
      if kind = .possessive then (semantics.repeated (ends body) min bound false state).head?.toList
      else semantics.repeated (ends body) min bound (decide (kind = .lazy)) state
  | .assert positive width body, state =>
      if width ≤ state.pos then
        let found := ends body { state with pos := state.pos - width }
        if positive then (semantics.asserted found).map fun found ↦ { found with pos := state.pos }
        else if found = [] then [state] else []
      else if positive then [] else [state]
  | .atomic body, state => (ends body state).head?.toList

/-- The end states of a sequence. -/
def ends : List Node → MatchState → List MatchState
  | [], state => [state]
  | node :: rest, state => (node.ends state).flatMap (ends rest)

/-- The end states of alternative sequences. -/
def branchEnds : List (List Node) → MatchState → List MatchState
  | [], _ => []
  | branch :: rest, state => ends branch state ++ branchEnds rest state

end

end Ends

/-- The iterations of a repeat, a number of them left. An iteration that is not needed and does not move
is the last one. -/
def iterate (run : MatchState → List MatchState) (min : ℕ) (isLazy : Bool) :
    ℕ → ℕ → MatchState → List MatchState
  | 0, count, state => if min ≤ count then [state] else []
  | remaining + 1, count, state =>
      let self := if min ≤ count then [state] else []
      let more := (run state).flatMap fun next ↦
        if next.pos = state.pos ∧ min ≤ count then [next] else iterate run min isLazy remaining (count + 1) next
      if isLazy then self ++ more else more ++ self

/-- Works off a list, a visit in the given way. -/
def perform (visit : ℕ → MatchState → List (ℕ × MatchState) → List MatchState × List (ℕ × MatchState)) :
    List Work → List (ℕ × MatchState) → List MatchState × List (ℕ × MatchState)
  | [], seen => ([], seen)
  | .emit state :: work, seen =>
      let later := perform visit work seen
      (state :: later.1, later.2)
  | .visit count state :: work, seen =>
      let first := visit count state seen
      let later := perform visit work first.2
      (first.1 ++ later.1, later.2)

/-- The engine's enumeration without its limits: a state that has been seen with the same count is not
visited again. -/
def visit (run : MatchState → List MatchState) (min : ℕ) (isLazy : Bool) :
    ℕ → ℕ → MatchState → List (ℕ × MatchState) → List MatchState × List (ℕ × MatchState)
  | 0, count, state, seen => (if min ≤ count then [state] else [], seen)
  | remaining + 1, count, state, seen =>
      let steps := nextSteps min count state (run state) seen
      let more := perform (fun count ↦ visit run min isLazy remaining count) steps.1 steps.2
      let self := if min ≤ count then [state] else []
      (if isLazy then self ++ more.1 else more.1 ++ self, more.2)

/-- The engine without its limits. -/
def withoutLimits : Semantics where
  repeated run min cap isLazy state := (visit run min isLazy cap 0 state []).1
  asserted := id

/-- Plain backtracking. -/
def backtracking : Semantics where
  repeated run min cap isLazy state := iterate run min isLazy cap 0 state
  asserted := id

/-- Backtracking that never goes back into an assertion. -/
def committing : Semantics where
  repeated run min cap isLazy state := iterate run min isLazy cap 0 state
  asserted := List.take 1

end Pon.Sre
