import Pon.Sre.Units

/-!
# Execution

The engine runs a stack of threads; a thread has a state and what remains of the sequences of nodes
that it is in, the innermost one first. Bodies of repeats, assertions and atomic groups are executed on
their own. Every loop counts its steps and gives up at a limit.
-/

namespace Pon.Sre

def stepLimit : ℕ := 4000000

def resultLimit : ℕ := 200000

def usizeMax : ℕ := 2 ^ 64 - 1

inductive ExecutionError
  | executionLimit
deriving DecidableEq

/-- The end states of a sequence of nodes, the preferred one first. -/
abbrev Matches := Except ExecutionError (List MatchState)

section Repeat

variable (table : CharTable) (subject : List Word)

inductive RepeatOneStep
  | matched (next : MatchState)
  | failed
  | unsupported

/-- The test of a node that reads one unit. -/
def Node.accepts : Node → Option (Word → Bool)
  | .literal value case => some fun unit ↦ matchesLiteral table (some unit) value case
  | .notLiteral value case => some fun unit ↦ !matchesLiteral table (some unit) value case
  | .any all => some fun unit ↦ all || unit != 10
  | .in_ set case => some fun unit ↦ set.matches table unit case
  | _ => none

/-- The rest of an iteration, which has read its unit or not. -/
def singleUnitStep : Bool → List Node → MatchState → RepeatOneStep
  | consumed, [], state => if consumed then .matched state else .unsupported
  | consumed, .mark index :: rest, state => singleUnitStep consumed rest (state.setMark index)
  | consumed, node :: rest, state =>
      match node.accepts table with
      | none => .unsupported
      | some accepts =>
          if consumed then .unsupported
          else if (subject[state.pos]?).any accepts then singleUnitStep true rest state.advance
          else .failed

def repeatSingleUnitStep (body : List Node) (state : MatchState) : RepeatOneStep :=
  singleUnitStep table subject false body state

/-- The candidates after the last iteration: too few iterations are no match, and greedy repeats prefer
more of them. -/
def lastCandidates (min : ℕ) (isLazy : Bool) (count : ℕ) (out : List MatchState) : List MatchState :=
  if count < min then [] else if isLazy then out else out.reverse.take resultLimit

/-- The iterations from a count on, of which a number remains. -/
def singleUnitLoop (body : List Node) (min : ℕ) (isLazy : Bool) :
    ℕ → ℕ → MatchState → List MatchState → Option (List MatchState)
  | 0, count, _, out => some (lastCandidates min isLazy count out)
  | remaining + 1, count, current, out =>
      match repeatSingleUnitStep table subject body current with
      | .unsupported => none
      | .failed => some (lastCandidates min isLazy count out)
      | .matched next =>
          if next.pos = current.pos then none
          else if min ≤ count + 1 then
            if isLazy ∧ resultLimit ≤ (out ++ [next]).length then some (out ++ [next])
            else singleUnitLoop body min isLazy remaining (count + 1) next (out ++ [next])
          else singleUnitLoop body min isLazy remaining (count + 1) next out

def repeatSingleUnitCandidates (body : List Node) (state : MatchState) (min : ℕ) (max : Option ℕ)
    (kind : RepeatKind) : Option (List MatchState) :=
  let isLazy := decide (kind = .lazy)
  let out := if min = 0 then [state] else []
  if min = 0 ∧ isLazy ∧ resultLimit ≤ out.length then some out
  else singleUnitLoop table subject body min isLazy (max.getD usizeMax) 0 state out

inductive Work
  | visit (count : ℕ) (state : MatchState)
  | emit (state : MatchState)

/-- What follows a visit. An empty iteration that is not needed ends the repeat; any other state is
visited unless it has been seen with the same count. -/
def nextSteps (min count : ℕ) (state : MatchState) :
    List MatchState → List (ℕ × MatchState) → List Work × List (ℕ × MatchState)
  | [], seen => ([], seen)
  | next :: rest, seen =>
      if next.pos = state.pos ∧ min ≤ count then
        let steps := nextSteps min count state rest seen
        (.emit next :: steps.1, steps.2)
      else if (count + 1, next) ∈ seen then nextSteps min count state rest seen
      else
        let steps := nextSteps min count state rest ((count + 1, next) :: seen)
        (.visit (count + 1) next :: steps.1, steps.2)

/-- The enumeration of the end states of a repeat, depth first. The first argument is the number of
steps that are left; the work on top of the stack comes first. -/
def enumerate (run : MatchState → Matches) (min cap : ℕ) (isLazy : Bool) :
    ℕ → List Work → List (ℕ × MatchState) → List MatchState → Matches
  | _, [], _, out => .ok out
  | 0, _ :: _, _, _ => .error .executionLimit
  | fuel + 1, .emit state :: work, seen, out =>
      if resultLimit ≤ (out ++ [state]).length then .ok (out ++ [state])
      else enumerate run min cap isLazy fuel work seen (out ++ [state])
  | fuel + 1, .visit count state :: work, seen, out => do
      let bodyMatches ← (if count < cap then run state else .ok [] : Matches)
      let steps := nextSteps min count state bodyMatches seen
      let self := if min ≤ count then [Work.emit state] else []
      enumerate run min cap isLazy fuel
        ((if isLazy then self ++ steps.1 else steps.1 ++ self) ++ work) steps.2 out

/-- The bound on the iterations; `usize` addition saturates. -/
def repeatCap (state : MatchState) (min : ℕ) (max : Option ℕ) : ℕ :=
  max.getD (Nat.min (subject.length - state.pos + min + 1) usizeMax)

/-- The enumeration for a repeat whose body is run as given. -/
def enumerateCandidates (run : MatchState → Matches) (state : MatchState) (min : ℕ) (max : Option ℕ)
    (kind : RepeatKind) : Matches :=
  enumerate run min (repeatCap subject state min max) (decide (kind = .lazy)) stepLimit
    [.visit 0 state] [] []

def repeatCandidates (run : MatchState → Matches) (body : List Node) (state : MatchState) (min : ℕ)
    (max : Option ℕ) (kind : RepeatKind) : Matches :=
  match repeatSingleUnitCandidates table subject body state min max kind with
  | some candidates => .ok candidates
  | none => enumerateCandidates subject run state min max kind

end Repeat

mutual

/-- The number of nodes, those of bodies included. -/
def Node.weight : Node → ℕ
  | .groupRefExists _ yes no => weight yes + weight no + 1
  | .branch branches => branchesWeight branches + 1
  | .repeat_ body _ _ _ | .assert _ _ body | .atomic body => weight body + 1
  | _ => 1

def weight : List Node → ℕ
  | [] => 0
  | node :: rest => node.weight + weight rest

def branchesWeight : List (List Node) → ℕ
  | [] => 0
  | branch :: rest => weight branch + branchesWeight rest

end

theorem weight_le_branchesWeight {branches : List (List Node)} {branch : List Node}
    (h : branch ∈ branches) : weight branch ≤ branchesWeight branches := by
  induction branches with
  | nil => cases h
  | cons first rest ih =>
    rw [branchesWeight]
    obtain rfl | h := List.mem_cons.mp h
    · exact Nat.le_add_right _ _
    · exact (ih h).trans (Nat.le_add_left _ _)

/-- What remains of a sequence, within a bound on its weight. -/
abbrev Segment (bound : ℕ) := {nodes : List Node // weight nodes ≤ bound}

structure Thread (bound : ℕ) where
  segments : List (Segment bound)
  state : MatchState

/-- The next node and what remains after it; segments that are at their end are left. -/
def nextNode {bound : ℕ} :
    List (Segment bound) → Option ({node : Node // node.weight ≤ bound} × List (Segment bound))
  | [] => none
  | ⟨[], _⟩ :: rest => nextNode rest
  | ⟨node :: nodes, h⟩ :: rest =>
      have hnode : node.weight ≤ bound := (Nat.le_add_right _ _).trans h
      have hnodes : weight nodes ≤ bound := (Nat.le_add_left _ _).trans h
      some (⟨node, hnode⟩, ⟨nodes, hnodes⟩ :: rest)

section Execute

variable (table : CharTable) (subject : List Word)

/-- The threads that go on from a node, the preferred one first. Smaller bodies are executed as given. -/
def follow {bound : ℕ} (run : (body : List Node) → weight body < bound → MatchState → Bool → Matches)
    (rest : List (Segment bound)) (state : MatchState) :
    (node : Node) → node.weight ≤ bound → Except ExecutionError (List (Thread bound))
  | .literal value case, _ =>
      pure (if matchesLiteral table subject[state.pos]? value case then [⟨rest, state.advance⟩] else [])
  | .notLiteral value case, _ =>
      pure (if state.pos < subject.length ∧ !matchesLiteral table subject[state.pos]? value case then
        [⟨rest, state.advance⟩] else [])
  | .any all, _ =>
      pure (if (subject[state.pos]?).any fun unit ↦ all || unit != 10 then [⟨rest, state.advance⟩] else [])
  | .at_ position, _ =>
      pure (if atMatches table subject position state.pos then [⟨rest, state⟩] else [])
  | .in_ set case, _ =>
      pure (if (subject[state.pos]?).any fun unit ↦ set.matches table unit case then
        [⟨rest, state.advance⟩] else [])
  | .mark index, _ => pure [⟨rest, state.setMark index⟩]
  | .groupRef group case, _ =>
      pure ((matchGroupRef table subject state group case).toList.map fun state ↦ ⟨rest, state⟩)
  | .groupRefExists group yes no, h =>
      have hyes : weight yes ≤ bound := (Nat.le_add_right _ _).trans ((Nat.le_succ _).trans h)
      have hno : weight no ≤ bound := (Nat.le_add_left _ _).trans ((Nat.le_succ _).trans h)
      let chosen : Segment bound := if groupIsMatched state group then ⟨yes, hyes⟩ else ⟨no, hno⟩
      pure [⟨chosen :: rest, state⟩]
  | .branch branches, h =>
      have hbranch : ∀ branch ∈ branches, weight branch ≤ bound := fun _ mem ↦
        (weight_le_branchesWeight mem).trans ((Nat.le_succ _).trans h)
      pure (branches.attach.map fun branch ↦ ⟨⟨branch.1, hbranch branch.1 branch.2⟩ :: rest, state⟩)
  | .repeat_ body min max kind, h => do
      have hbody : weight body < bound := h
      let runBody (state : MatchState) := run body hbody state true
      -- A possessive repeat commits to the first candidate of the greedy one.
      if kind = .possessive then
        let candidates ← repeatCandidates table subject runBody body state min (max.map Subtype.val) .greedy
        pure (candidates.head?.toList.map fun state ↦ ⟨rest, state⟩)
      else
        let candidates ← repeatCandidates table subject runBody body state min (max.map Subtype.val) kind
        pure (candidates.map fun state ↦ ⟨rest, state⟩)
  | .assert positive width body, h => do
      have hbody : weight body < bound := h
      if width ≤ state.pos then
        let found ← run body hbody { state with pos := state.pos - width } true
        if positive then pure (found.map fun found ↦ ⟨rest, { found with pos := state.pos }⟩)
        else pure (if found = [] then [⟨rest, state⟩] else [])
      else pure (if positive then [] else [⟨rest, state⟩])
  | .atomic body, h => do
      have hbody : weight body < bound := h
      let found ← run body hbody state false
      pure (found.getLast?.toList.map fun state ↦ ⟨rest, state⟩)

/-- Runs the threads. The first argument is the number of steps that are left; the thread on top of the
stack comes first. -/
def runThreads {bound : ℕ}
    (run : (body : List Node) → weight body < bound → MatchState → Bool → Matches) (collectAll : Bool) :
    ℕ → List (Thread bound) → List MatchState → Matches
  | _, [], out => .ok out
  | 0, _ :: _, _ => .error .executionLimit
  | fuel + 1, thread :: stack, out =>
      match nextNode thread.segments with
      | none =>
          if !collectAll ∨ resultLimit ≤ (out ++ [thread.state]).length then .ok (out ++ [thread.state])
          else runThreads run collectAll fuel stack (out ++ [thread.state])
      | some (node, rest) => do
          let threads ← follow table subject run rest thread.state node.1 node.2
          runThreads run collectAll fuel (threads ++ stack) out

def execute (nodes : List Node) (start : MatchState) (collectAll : Bool) : Matches :=
  runThreads table subject (fun body _ state all ↦ execute body state all) collectAll stepLimit
    [⟨[⟨nodes, le_refl (weight nodes)⟩], start⟩] []
termination_by weight nodes

end Execute

end Pon.Sre
