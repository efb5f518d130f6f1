import Pon.Sre.Answers
import Pon.Sre.Unlimited

/-!
# Limits and answers

The engine without its limits finds what plain backtracking finds first. So an operation of a pattern gives
the answer of plain backtracking or gives up, unless a list of alternatives is cut and the search goes past
the cut.
-/

namespace Pon.Sre

open Alternatives

section Ends

variable (table : CharTable) (subject : List Word)

mutual

theorem Node.alike_ends (node : Node) (state : MatchState) :
    Alike (node.ends withoutLimits table subject state) (node.ends backtracking table subject state) := by
  cases node with
  | literal | notLiteral | any | at_ | in_ | mark | groupRef => exact .refl
  | groupRefExists group yes no =>
    unfold Node.ends
    split_ifs
    · exact alike_ends yes state
    · exact alike_ends no state
  | branch branches =>
    unfold Node.ends
    exact alike_branchEnds branches state
  | repeat_ body min max kind =>
    have repeated (isLazy : Bool) (cap : ℕ) :
        Alike (withoutLimits.repeated (ends withoutLimits table subject body) min cap isLazy state)
          (backtracking.repeated (ends backtracking table subject body) min cap isLazy state) :=
      (alike_visit _ min isLazy cap state).trans
        (alike_iterate (fun _ current _ _ ↦ alike_ends body current) (Nat.zero_add cap) .start)
    unfold Node.ends
    dsimp only
    split_ifs
    · rw [(repeated false _).head?_eq]
      exact .refl
    · exact repeated _ _
  | assert positive width body =>
    have found := alike_ends body { state with pos := state.pos - width }
    unfold Node.ends
    dsimp only
    simp only [found.eq_nil_iff]
    split_ifs
    · exact Agree.map found
    · exact .refl
    · exact .refl
    · exact .refl
    · exact .refl
  | atomic body =>
    unfold Node.ends
    rw [(alike_ends body state).head?_eq]
    exact .refl

theorem alike_ends (nodes : List Node) (state : MatchState) :
    Alike (ends withoutLimits table subject nodes state) (ends backtracking table subject nodes state) := by
  cases nodes with
  | nil => exact .refl
  | cons node rest =>
    unfold ends
    exact Agree.trans (Agree.flatMap (Agree.of_alike (Node.alike_ends node state)))
      (Until.agree (Until.of_forall fun next _ ↦ alike_ends rest next))

theorem alike_branchEnds (branches : List (List Node)) (state : MatchState) :
    Alike (branchEnds withoutLimits table subject branches state)
      (branchEnds backtracking table subject branches state) := by
  cases branches with
  | nil => exact .refl
  | cons branch rest =>
    unfold branchEnds
    exact (alike_ends branch state).append fun _ ↦ alike_branchEnds rest state

end

end Ends

namespace Pattern

variable {table : CharTable} {pattern : Pattern} {subject : List Word}

/-- A match at a position cuts no list before the search stops: no candidates of a repeat, no end states of
a body, and no end states of the pattern. A match that gives up has cut none until then. -/
structure InLimits (table : CharTable) (pattern : Pattern) (subject : List Word) (start : ℕ)
    (requireEnd : Option ℕ) (skipEmptyAtStart : Bool) : Prop where
  within : ExecuteWithin table subject (accepts start requireEnd skipEmptyAtStart) pattern.nodes
    (pattern.startState start) (requireEnd.isSome || skipEmptyAtStart)
  collected : givesUp table pattern subject start requireEnd skipEmptyAtStart = false →
    Uncut (accepts start requireEnd skipEmptyAtStart)
      (ends withoutLimits table subject pattern.nodes (pattern.startState start))

theorem accepts_of_first {start : ℕ} {requireEnd : Option ℕ} {skipEmptyAtStart : Bool}
    (first : (requireEnd.isSome || skipEmptyAtStart) = false) :
    accepts start requireEnd skipEmptyAtStart = fun _ ↦ true := by
  obtain ⟨anyEnd, rfl⟩ := Bool.or_eq_false_iff.mp first
  obtain rfl := Option.not_isSome_iff_eq_none.mp (Bool.eq_false_iff.mp anyEnd)
  rfl

theorem answers_withoutLimits (short : subject.length < usizeMax) :
    Answers withoutLimits table pattern subject (InLimits table pattern subject) := by
  intro start requireEnd skipEmptyAtStart result inLimits matched
  have collected := inLimits.collected (givesUp_of_ok matched)
  obtain ⟨states, ran, matched⟩ := Effect.ok_of_bind matched
  obtain rfl := Except.ok.inj matched
  obtain ⟨whole, same, rfl⟩ := execute_same short ran inLimits.within
  refine congrArg (Option.map (pattern.buildMatch subject start)) ?_
  have enough : (upTo (accepts start requireEnd skipEmptyAtStart) whole).length ≤
      quota (requireEnd.isSome || skipEmptyAtStart) := by
    rw [same]
    cases collects : requireEnd.isSome || skipEmptyAtStart with
    | true => exact length_upTo_le collected
    | false =>
      rw [accepts_of_first collects]
      cases ends withoutLimits table subject pattern.nodes (pattern.startState start) with
      | nil => exact Nat.zero_le _
      | cons => exact le_rfl
  rw [find?_take enough]
  exact same.agree.find?_eq

theorem answerAt_backtracking (start : ℕ) (requireEnd : Option ℕ) (skipEmptyAtStart : Bool) :
    answerAt withoutLimits table pattern subject start requireEnd skipEmptyAtStart =
      answerAt backtracking table pattern subject start requireEnd skipEmptyAtStart :=
  congrArg (Option.map (pattern.buildMatch subject start))
    (Agree.of_alike (alike_ends table subject pattern.nodes (pattern.startState start))).find?_eq

theorem answers_backtracking (short : subject.length < usizeMax) :
    Answers backtracking table pattern subject (InLimits table pattern subject) :=
  fun start requireEnd skipEmptyAtStart result inLimits matched ↦
    (answers_withoutLimits short start requireEnd skipEmptyAtStart result inLimits matched).trans
      (answerAt_backtracking start requireEnd skipEmptyAtStart)

/-- An operation whose matches are all within the limits gives the answer of backtracking, or gives up. -/
theorem limits_keep_answers (short : subject.length < usizeMax) :
    (∀ mode pos endpos,
      Tried backtracking table pattern (subject.take endpos) (InLimits table pattern (subject.take endpos))
        mode pos →
      pattern.runMatch table subject mode pos endpos =
          .ok (answer backtracking table pattern (subject.take endpos) mode pos) ∨
        pattern.runMatch table subject mode pos endpos = .error .executionLimit) ∧
    ((∀ start afterEmpty, ScanTries backtracking table pattern subject start afterEmpty →
        start ≤ subject.length → InLimits table pattern subject start none afterEmpty) →
      (∃ found, pattern.finditerData table subject = .ok found ∧
        ScanAnswer backtracking table pattern subject 0 false found) ∨
      pattern.finditerData table subject = .error .executionLimit) := by
  constructor
  · intro mode pos endpos tried
    have shortened : (subject.take endpos).length < usizeMax :=
      (List.length_take_le' endpos subject).trans_lt short
    cases ran : pattern.runMatch table subject mode pos endpos with
    | ok result => exact Or.inl (congrArg _ (runMatch_answer (answers_backtracking shortened) tried ran))
    | error error =>
      cases error
      exact Or.inr rfl
  · intro tried
    cases ran : pattern.finditerData table subject with
    | ok found => exact Or.inl ⟨found, rfl, finditerData_answer (answers_backtracking short) tried ran⟩
    | error error =>
      cases error
      exact Or.inr rfl

/-- The pattern `a*?`. -/
def lazyStar : Pattern where
  groups := 0
  groupindex := []
  indexgroup := []
  nodes := [.repeat_ [.literal 97 .exact] 0 none .lazy]

/-- The walk over a subject of literals `a`. -/
def walkStates (n : ℕ) : List MatchState :=
  (List.range (n + 1)).map fun pos ↦ ⟨pos, [], none⟩

variable {n : ℕ}

theorem iterations_lazyStar {remaining : ℕ} (more : n < remaining) :
    ∃ states, iterations asciiTable (List.replicate n 97) [.literal 97 .exact] remaining ⟨0, [], none⟩ =
      some states ∧ (⟨0, [], none⟩ : MatchState) :: states = walkStates n := by
  refine ⟨_, iterations_replicate n remaining n 0 (Nat.zero_add n) more, ?_⟩
  rw [walkStates, List.range_eq_range', List.range'_succ]
  rfl

/-- Without limits, the pattern ends at every position. -/
theorem ends_lazyStar (n : ℕ) :
    ends withoutLimits asciiTable (List.replicate n 97) lazyStar.nodes (lazyStar.startState 0) =
      walkStates n := by
  obtain ⟨states, walked, isWalk⟩ := iterations_lazyStar (Nat.lt_succ_self n)
  have bound : iterationBound (List.replicate n 97) (lazyStar.startState 0) 0 none = n + 1 := by
    simp [iterationBound, startState]
  calc ends withoutLimits asciiTable (List.replicate n 97) lazyStar.nodes (lazyStar.startState 0)
      = (visit (ends withoutLimits asciiTable (List.replicate n 97) [.literal 97 .exact]) 0 true
          (iterationBound (List.replicate n 97) (lazyStar.startState 0) 0 none) 0 ⟨0, [], none⟩ []).1 :=
        List.flatMap_singleton' _
    _ = walkStates n := by
        rw [bound, visit_of_iterations 0 true walked (List.forall_mem_nil _), isWalk]
        rfl

theorem candidates_lazyStar (short : n < usizeMax) :
    repeatSingleUnitCandidates asciiTable (List.replicate n 97) [.literal 97 .exact] (lazyStar.startState 0) 0
      none .lazy = some ((walkStates n).take resultLimit) := by
  obtain ⟨states, walked, isWalk⟩ := iterations_lazyStar short
  rw [← isWalk]
  exact repeatSingleUnitCandidates_of_iterations .lazy walked

/-- The pattern has three ends on `aa`, and all of them are kept. -/
theorem inLimits_lazyStar : InLimits asciiTable lazyStar (List.replicate 2 97) 0 (some 2) false := by
  have uncut (stop) : Uncut stop
      (ends withoutLimits asciiTable (List.replicate 2 97) lazyStar.nodes (lazyStar.startState 0)) :=
    Or.inl (by rw [ends_lazyStar]; decide)
  refine ⟨?_, fun _ ↦ uncut _⟩
  have candidates := candidates_lazyStar (n := 2) (by decide)
  rw [ExecuteWithin]
  change RunWithin _ _ _ _ _ _ (3999999 + 1) _ _
  unfold RunWithin
  refine fun _ ↦ ⟨⟨fun none ↦ ?_, fun _ _ _ ↦ ?_⟩, fun threads followed ↦ ?_⟩
  · cases candidates.symm.trans none
  · exact (congrArg (Uncut _) (List.flatMap_singleton' _)).mp (uncut _)
  · unfold follow at followed
    dsimp only at followed
    rw [if_neg (by decide), repeatCandidates, Option.map_none, candidates] at followed
    obtain rfl := Except.ok.inj followed
    simp [RunWithin, nextNode, walkStates, List.range_succ, resultLimit]

theorem limits_keep_answers_lazyStar :
    lazyStar.runMatch asciiTable (List.replicate 2 97) .fullmatch 0 2 =
        .ok (answer backtracking asciiTable lazyStar (List.replicate 2 97) .fullmatch 0) ∨
      lazyStar.runMatch asciiTable (List.replicate 2 97) .fullmatch 0 2 = .error .executionLimit :=
  (@limits_keep_answers asciiTable lazyStar (List.replicate 2 97) (by decide)).1 .fullmatch 0 2 inLimits_lazyStar

/-- Threads at the end of the pattern yield their states, as many as are kept. -/
theorem runThreads_threadsAt {bound : ℕ}
    {run : (body : List Node) → weight body < bound → MatchState → Bool → Matches} (h : weight [] ≤ bound)
    {states : List MatchState} {fuel : ℕ} (enough : states.length ≤ fuel) {out : List MatchState}
    (room : out.length < resultLimit) :
    runThreads table subject run true fuel (threadsAt [⟨[], h⟩] states) out =
      .ok ((out ++ states).take resultLimit) := by
  induction states generalizing fuel out with
  | nil =>
    rw [List.append_nil, List.take_of_length_le room.le]
    cases fuel <;> rfl
  | cons state states ih =>
    obtain ⟨fuel, rfl⟩ := Nat.exists_eq_succ_of_ne_zero (Nat.ne_zero_of_lt enough)
    have length : (out ++ [state]).length = out.length + 1 := List.length_append
    rw [threadsAt, List.map_cons, List.append_cons]
    unfold runThreads
    dsimp only [nextNode]
    split_ifs with full
    · have exactly : (out ++ [state]).length = resultLimit := by
        have := full.resolve_left Bool.false_ne_true
        omega
      rw [← exactly, List.take_left]
    · exact ih (Nat.le_of_succ_le_succ enough) (by omega)

theorem execute_lazyStar (short : n < usizeMax) :
    execute asciiTable (List.replicate n 97) lazyStar.nodes (lazyStar.startState 0) true =
      .ok ((walkStates n).take resultLimit) := by
  have length : ((walkStates n).take resultLimit).length ≤ 3999999 :=
    (List.length_take_le _ _).trans (by decide)
  rw [execute]
  change runThreads _ _ _ true (3999999 + 1) _ _ = _
  unfold runThreads
  change (do
    let threads ← follow asciiTable (List.replicate n 97) _ [⟨[], _⟩] (lazyStar.startState 0)
      (.repeat_ [.literal 97 .exact] 0 none .lazy) _
    runThreads asciiTable (List.replicate n 97) _ true 3999999 (threads ++ []) []) = _
  unfold follow
  dsimp only
  rw [if_neg (by decide), repeatCandidates, Option.map_none, candidates_lazyStar short]
  change runThreads asciiTable (List.replicate n 97) _ true 3999999
    (threadsAt [⟨[], _⟩] ((walkStates n).take resultLimit) ++ []) [] = _
  rw [List.append_nil, runThreads_threadsAt _ length (by decide), List.nil_append, List.take_take, min_self]

/-- No state that is kept is at the end. -/
theorem find?_walkStates (long : resultLimit ≤ n) :
    ((walkStates n).take resultLimit).find? (accepts 0 (some n) false) = none := by
  rw [List.find?_eq_none]
  intro state mem
  rw [walkStates, ← List.map_take, List.mem_map] at mem
  obtain ⟨pos, kept, rfl⟩ := mem
  rw [List.take_range, List.mem_range] at kept
  have before : pos ≠ n := by omega
  simpa [accepts] using before

theorem runMatch_lazyStar (long : resultLimit ≤ n) (short : n < usizeMax) :
    lazyStar.runMatch asciiTable (List.replicate n 97) .fullmatch 0 n = .ok none := by
  have whole : (List.replicate n (97 : Word)).take n = List.replicate n 97 := by
    rw [List.take_replicate, min_self]
  change lazyStar.matchDataFiltered asciiTable _ 0 (some (List.length _)) false = _
  rw [whole, List.length_replicate, matchDataFiltered]
  change (do
    let states ← execute asciiTable (List.replicate n 97) lazyStar.nodes (lazyStar.startState 0) true
    pure ((states.find? (accepts 0 (some n) false)).map _)) = _
  rw [execute_lazyStar short]
  change Except.ok _ = _
  rw [find?_walkStates long]
  rfl

theorem answer_lazyStar (n : ℕ) :
    (answer backtracking asciiTable lazyStar (List.replicate n 97) .fullmatch 0).isSome := by
  change (answerAt backtracking asciiTable lazyStar _ 0 (some (List.length _)) false).isSome
  rw [← answerAt_backtracking, answerAt, ends_lazyStar, List.length_replicate, Option.isSome_map,
    List.find?_isSome]
  refine ⟨⟨n, [], none⟩, List.mem_map.mpr ⟨n, List.mem_range.mpr (Nat.lt_succ_self n), rfl⟩, ?_⟩
  simp [accepts]

/-- As many literals `a` as are kept are a full match, and the engine says that there is none. -/
theorem fullmatch_past_limit :
    ¬(lazyStar.runMatch asciiTable (List.replicate resultLimit 97) .fullmatch 0 resultLimit =
          .ok (answer backtracking asciiTable lazyStar ((List.replicate resultLimit 97).take resultLimit)
            .fullmatch 0) ∨
        lazyStar.runMatch asciiTable (List.replicate resultLimit 97) .fullmatch 0 resultLimit =
          .error .executionLimit) := by
  rw [runMatch_lazyStar le_rfl (by decide), List.take_replicate, min_self]
  rintro (same | error)
  · have isAnswer := answer_lazyStar resultLimit
    rw [← Except.ok.inj same] at isAnswer
    cases isAnswer
  · cases error

end Pattern

end Pon.Sre
