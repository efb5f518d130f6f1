import Pon.Sre.Limits

/-!
# Lookaround

The engine goes back into a positive assertion: every end state of its body is tried. It answers as if it
committed to the first one unless the search goes back into an assertion and finds another state there.
-/

namespace Pon.Sre

open Alternatives

/-- A search does not go back to another state: it stops at the first one, or all of them are the same. -/
def Committed (stop : MatchState → Bool) (alternatives : List MatchState) : Prop :=
  alternatives.head?.any stop ∨ ∀ state ∈ alternatives, alternatives.head? = some state

theorem Committed.agree {stop : MatchState → Bool} {alternatives : List MatchState}
    (committed : Committed stop alternatives) : Agree stop alternatives (alternatives.take 1) := by
  intro wanted more
  cases alternatives with
  | nil => rfl
  | cons first later =>
    cases here : wanted first with
    | true => rw [List.find?_cons_of_pos here, List.take_succ_cons, List.find?_cons_of_pos here]
    | false =>
      have differs : ¬wanted first = true := Bool.eq_false_iff.mp here
      obtain stops | same := committed
      · exact absurd (more first stops) differs
      · rw [List.find?_cons_of_neg differs, List.take_succ_cons, List.find?_cons_of_neg differs]
        refine List.find?_eq_none.mpr fun state mem ↦ ?_
        rw [← Option.some.inj (same state (List.mem_cons_of_mem first mem))]
        exact differs

section Ends

variable (table : CharTable) (subject : List Word)

mutual

theorem Node.agree_ends (node : Node) (state : MatchState) {stop : MatchState → Bool}
    {next : MatchState → Prop}
    (explored : node.Explored backtracking Committed table subject state stop next) :
    Agree stop (node.ends backtracking table subject state) (node.ends committing table subject state) := by
  cases node with
  | literal | notLiteral | any | at_ | in_ | mark | groupRef => exact .refl
  | groupRefExists group yes no =>
    unfold Node.Explored at explored
    unfold Node.ends
    by_cases matched : groupIsMatched state group
    · rw [if_pos matched] at explored
      rw [if_pos matched, if_pos matched]
      exact agree_ends yes state explored
    · rw [if_neg matched] at explored
      rw [if_neg matched, if_neg matched]
      exact agree_ends no state explored
  | branch branches =>
    unfold Node.Explored at explored
    unfold Node.ends
    exact agree_branchEnds branches state explored
  | repeat_ body min max kind =>
    obtain ⟨visited, -⟩ := explored
    have repeated (isLazy : Bool) :
        Alike (iterate (ends backtracking table subject body) min isLazy
            (iterationBound subject state min (max.map Subtype.val)) 0 state)
          (iterate (ends committing table subject body) min isLazy
            (iterationBound subject state min (max.map Subtype.val)) 0 state) :=
      alike_iterate (fun count current visits more ↦ agree_ends body current (visited count current visits more))
        (Nat.zero_add _) .start
    unfold Node.ends
    dsimp only
    split_ifs
    · exact (congrArg Option.toList (repeated false).head?_eq) ▸ Agree.refl
    · exact .of_alike (repeated _)
  | assert positive width body =>
    obtain ⟨inner, asserted, -⟩ := explored
    unfold Node.ends at asserted ⊢
    dsimp only at asserted ⊢
    by_cases behind : width ≤ state.pos
    · have found := agree_ends body { state with pos := state.pos - width } (inner behind)
      simp only [behind, if_true] at asserted ⊢
      cases positive with
      | true =>
        have first : (ends backtracking table subject body { state with pos := state.pos - width }).take 1 =
            (ends committing table subject body { state with pos := state.pos - width }).take 1 := by
          rw [List.take_one, List.take_one, found.head?_eq]
        simp only [if_true] at asserted ⊢
        change Agree stop _ (List.map _ (List.take 1 _))
        rw [← first, List.map_take]
        exact Committed.agree (asserted trivial)
      | false =>
        simp only [found.eq_nil_iff]
        exact .refl
    · simp only [behind, if_false]
      exact .refl
  | atomic body =>
    obtain ⟨inner, -⟩ := explored
    unfold Node.ends
    rw [(agree_ends body state inner).head?_eq]
    exact .refl

theorem agree_ends (nodes : List Node) (state : MatchState) {stop : MatchState → Bool}
    {next : MatchState → Prop}
    (explored : Explored backtracking Committed table subject nodes state stop next) :
    Agree stop (ends backtracking table subject nodes state) (ends committing table subject nodes state) := by
  cases nodes with
  | nil => exact .refl
  | cons node rest =>
    unfold Explored at explored
    unfold ends
    have agree := Node.agree_ends node state explored
    have later : Until _ (fun following ↦
        Agree stop (ends backtracking table subject rest following) (ends committing table subject rest following))
        (node.ends backtracking table subject state) :=
      explored.tried.mono fun following explored ↦ agree_ends rest following explored
    exact (Agree.flatMap agree).trans (Until.agree (later.of_agree agree))

theorem agree_branchEnds (branches : List (List Node)) (state : MatchState) {stop : MatchState → Bool}
    {next : MatchState → Prop}
    (explored : BranchExplored backtracking Committed table subject branches state stop next) :
    Agree stop (branchEnds backtracking table subject branches state)
      (branchEnds committing table subject branches state) := by
  cases branches with
  | nil => exact .refl
  | cons branch rest =>
    unfold branchEnds
    exact (agree_ends branch state explored.1).append fun goesOn ↦
      agree_branchEnds rest state (explored.2 goesOn)

end

end Ends

namespace Pattern

variable {table : CharTable} {pattern : Pattern} {subject : List Word}

/-- A match at a position is within the limits and does not go back into an assertion to another state. -/
structure Commits (table : CharTable) (pattern : Pattern) (subject : List Word) (start : ℕ)
    (requireEnd : Option ℕ) (skipEmptyAtStart : Bool) : Prop where
  inLimits : InLimits table pattern subject start requireEnd skipEmptyAtStart
  explored : Explored backtracking Committed table subject pattern.nodes (pattern.startState start)
    (accepts start requireEnd skipEmptyAtStart) fun _ ↦ True

theorem answers_committing (short : subject.length < usizeMax) :
    Answers committing table pattern subject (Commits table pattern subject) := by
  intro start requireEnd skipEmptyAtStart result commits matched
  rw [answers_backtracking short start requireEnd skipEmptyAtStart result commits.inLimits matched]
  exact congrArg (Option.map (pattern.buildMatch subject start))
    (agree_ends table subject pattern.nodes _ commits.explored).find?_eq

/-- Where no match that is tried goes back into an assertion, an operation gives the answer of backtracking
that never does, or gives up. -/
theorem assertions_commit (short : subject.length < usizeMax) (mode : MatchMode) (pos endpos : ℕ)
    (tried : Tried committing table pattern (subject.take endpos)
      (Commits table pattern (subject.take endpos)) mode pos) :
    pattern.runMatch table subject mode pos endpos =
        .ok (answer committing table pattern (subject.take endpos) mode pos) ∨
      pattern.runMatch table subject mode pos endpos = .error .executionLimit := by
  have shortened : (subject.take endpos).length < usizeMax :=
    (List.length_take_le' endpos subject).trans_lt short
  cases ran : pattern.runMatch table subject mode pos endpos with
  | ok result => exact Or.inl (congrArg _ (runMatch_answer (answers_committing shortened) tried ran))
  | error error =>
    cases error
    exact Or.inr rfl

/-- The group `(a|ab)`. -/
def grouped : List Node :=
  [.mark 0, .literal 97 .exact, .branch [[], [.literal 98 .exact]], .mark 1]

theorem execute_grouped :
    execute asciiTable [97, 98, 99] grouped ⟨0, [none, none], none⟩ true =
      .ok [⟨1, [some 0, some 1], some 1⟩, ⟨2, [some 0, some 2], some 1⟩] := by
  rw [execute]
  simp [runThreads, nextNode, follow, matchesLiteral, foldUnit, stepLimit, resultLimit, MatchState.advance,
    MatchState.setMark, grouped]

/-- The pattern `(?=(a|ab))\1`. -/
def repeated : Pattern where
  groups := 1
  groupindex := []
  indexgroup := [none, none]
  nodes := [.assert true 0 grouped, .groupRef 0 .exact]

/-- On `abc`, the assertion ends in both groups, and the pattern commits to the first of them. -/
theorem assertions_commit_repeated :
    repeated.runMatch asciiTable [97, 98, 99] .match_ 0 3 =
        .ok (answer committing asciiTable repeated [97, 98, 99] .match_ 0) ∨
      repeated.runMatch asciiTable [97, 98, 99] .match_ 0 3 = .error .executionLimit := by
  refine @assertions_commit asciiTable repeated [97, 98, 99] (by decide) .match_ 0 3 ⟨⟨?_, fun _ ↦ ?_⟩, ?_⟩
  · have inner : ExecuteWithin asciiTable [97, 98, 99] (fun _ ↦ !true) grouped ⟨0, [none, none], none⟩ true := by
      rw [ExecuteWithin]
      simp [RunWithin, StepWithin, nextNode, follow, matchesLiteral, foldUnit, stepLimit, resultLimit, pure,
        Except.pure, MatchState.advance, MatchState.setMark, grouped]
    rw [ExecuteWithin]
    change RunWithin _ _ _ _ _ _ (3999999 + 1) _ _
    unfold RunWithin
    refine fun _ ↦ ⟨fun _ ↦ ⟨inner, fun _ _ _ ↦ ?_⟩, fun threads followed ↦ ?_⟩
    · exact Or.inl (by decide)
    · change (execute asciiTable [97, 98, 99] grouped ⟨0, [none, none], none⟩ true >>= _) = _ at followed
      rw [execute_grouped] at followed
      obtain rfl := Except.ok.inj followed
      simp [RunWithin, StepWithin, nextNode, follow, pure, Except.pure, matchGroupRef, MatchState.mark, startState,
        foldUnit]
  · exact Or.inl (by decide)
  · simp [Explored, Node.Explored, BranchExplored, Node.ends, ends, branchEnds, backtracking, Until, repeated,
      grouped, startState, matchesLiteral, foldUnit, MatchState.advance, MatchState.setMark, accepts, matchGroupRef,
      MatchState.mark, Committed]

/-- The pattern `(?=(a|ab))\1c`. -/
def ahead : Pattern where
  groups := 1
  groupindex := []
  indexgroup := [none, none]
  nodes := [.assert true 0 grouped, .groupRef 0 .exact, .literal 99 .exact]

theorem execute_ahead :
    execute asciiTable [97, 98, 99] ahead.nodes (ahead.startState 0) false =
      .ok [⟨3, [some 0, some 2], some 1⟩] := by
  have first : matchGroupRef asciiTable [97, 98, 99] ⟨0, [some 0, some 1], some 1⟩ 0 .exact =
      some ⟨1, [some 0, some 1], some 1⟩ := by decide
  have second : matchGroupRef asciiTable [97, 98, 99] ⟨0, [some 0, some 2], some 1⟩ 0 .exact =
      some ⟨2, [some 0, some 2], some 1⟩ := by decide
  obtain ⟨fuel, limit⟩ : ∃ fuel, stepLimit = fuel + 6 := ⟨3999994, rfl⟩
  have after (h) : runThreads asciiTable [97, 98, 99]
      (fun (body : List Node) (_ : weight body < weight ahead.nodes) state all ↦
        execute asciiTable [97, 98, 99] body state all) false (fuel + 5)
      [⟨[⟨[.groupRef 0 .exact, .literal 99 .exact], h⟩], ⟨0, [some 0, some 1], some 1⟩⟩,
        ⟨[⟨[.groupRef 0 .exact, .literal 99 .exact], h⟩], ⟨0, [some 0, some 2], some 1⟩⟩] [] =
        .ok [⟨3, [some 0, some 2], some 1⟩] := by
    simp [runThreads, nextNode, follow, matchesLiteral, foldUnit, MatchState.advance, first, second]
  rw [execute, limit]
  unfold runThreads
  simp only [nextNode, follow, ahead, startState]
  rw [if_pos (Nat.zero_le 0)]
  change (execute asciiTable [97, 98, 99] _ ⟨0, [none, none], none⟩ true >>= _) >>= _ = _
  rw [execute_grouped]
  exact after _

/-- On `abc`, the engine goes back into the assertion and matches. -/
theorem assertion_revisited :
    ¬(ahead.runMatch asciiTable [97, 98, 99] .match_ 0 3 =
          .ok (answer committing asciiTable ahead [97, 98, 99] .match_ 0) ∨
        ahead.runMatch asciiTable [97, 98, 99] .match_ 0 3 = .error .executionLimit) := by
  have ran : ahead.runMatch asciiTable [97, 98, 99] .match_ 0 3 =
      .ok (some (ahead.buildMatch [97, 98, 99] 0 ⟨3, [some 0, some 2], some 1⟩)) := by
    change (execute asciiTable [97, 98, 99] ahead.nodes (ahead.startState 0) false >>= _) = _
    rw [execute_ahead]
    rfl
  have isAnswer : answer committing asciiTable ahead [97, 98, 99] .match_ 0 = none := by decide
  rw [ran, isAnswer]
  rintro (same | error)
  · cases same
  · cases error

end Pattern

end Pon.Sre
