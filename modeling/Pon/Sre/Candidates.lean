import Pon.Sre.Enumeration

/-!
# The candidates of a repeat

Walk or enumeration, the engine builds the list of the end states of a repeat and keeps as many as it may.
-/

namespace Pon.Sre

open Alternatives

variable {table : CharTable} {subject : List Word}

variable {semantics : Semantics} {state : MatchState} {body : List Node}
  {run : MatchState → Matches} {min : ℕ} {max : Option ℕ}

theorem ends_accepts {node : Node} {accepts : Word → Bool} (h : node.accepts table = some accepts)
    (state : MatchState) :
    node.ends semantics table subject state =
      if (subject[state.pos]?).any accepts then [state.advance] else [] := by
  cases node with
  | literal value case =>
    obtain rfl := Option.some.inj h
    unfold Node.ends
    cases subject[state.pos]? <;> rfl
  | notLiteral value case =>
    obtain rfl := Option.some.inj h
    unfold Node.ends
    by_cases inside : state.pos < subject.length
    · simp [inside]
    · simp [inside]
  | any | in_ =>
    obtain rfl := Option.some.inj h
    rfl
  | mark | at_ | groupRef | groupRefExists | branch | repeat_ | assert | atomic => cases h

/-- What a body of a single unit ends in. -/
def RepeatOneStep.ends : RepeatOneStep → Option (List MatchState)
  | .matched next => some [next]
  | .failed => some []
  | .unsupported => none

theorem ends_of_singleUnitStep {nodes : List Node} {consumed : Bool} {found : List MatchState}
    (h : (singleUnitStep table subject consumed nodes state).ends = some found) :
    ends semantics table subject nodes state = found := by
  induction nodes generalizing consumed state with
  | nil =>
    cases consumed with
    | false => cases h
    | true => exact Option.some.inj h
  | cons node rest ih =>
    by_cases mark : ∃ index, node = .mark index
    · obtain ⟨index, rfl⟩ := mark
      exact (List.append_nil _).trans (ih h)
    · cases accepts : node.accepts table with
      | none =>
        rw [singleUnitStep_none accepts fun index same ↦ mark ⟨index, same⟩] at h
        cases h
      | some accepts' =>
        rw [singleUnitStep_some accepts] at h
        unfold ends
        rw [ends_accepts accepts]
        split_ifs at h ⊢ with before unit
        · cases h
        · exact (List.append_nil _).trans (ih h)
        · cases h
        · exact Option.some.inj h

variable {states : List MatchState} {kind : RepeatKind}

/-- The visits of a walk, one in each other. -/
theorem visit_of_iterations (min : ℕ) (isLazy : Bool) {remaining count : ℕ} {current : MatchState}
    (h : iterations table subject body remaining current = some states)
    {seen : List (ℕ × MatchState)} (counts : ∀ key ∈ seen, key.1 ≤ count) :
    (visit (ends semantics table subject body) min isLazy remaining count current seen).1 =
      walkCandidates (min - count) isLazy (current :: states) := by
  induction remaining generalizing count current states seen with
  | zero =>
    obtain rfl := Option.some.inj h
    exact stopAt_walk min count isLazy current
  | succ remaining ih =>
    unfold visit
    obtain ⟨step, rfl⟩ | ⟨next, rest, step, walked, rfl⟩ := iterations_cases h
    · have nothing : ends semantics table subject body current = [] :=
        ends_of_singleUnitStep (congrArg RepeatOneStep.ends step)
      rw [nothing, ← stopAt_walk]
      cases isLazy with
      | true => exact List.append_nil _
      | false => rfl
    · have one : ends semantics table subject body current = [next] :=
        ends_of_singleUnitStep (congrArg RepeatOneStep.ends step)
      have moved : next.pos ≠ current.pos := by
        rw [(singleUnitStep_false_pos step).1]
        exact Nat.succ_ne_self _
      have steps : nextSteps min count current [next] seen =
          ([.visit (count + 1) next], (count + 1, next) :: seen) := by
        unfold nextSteps
        rw [if_neg fun trailing ↦ moved trailing.1, if_neg (unseen_of_counts counts next)]
        rfl
      have later := ih walked (counts_cons counts next)
      dsimp only
      rw [one, steps, perform, perform, walkCandidates_next, ← later, List.append_nil]
      cases isLazy <;> rfl

/-- The bound does not matter if the steps that are left do not reach it. -/
theorem enumerate_cap {cap cap' : ℕ} {isLazy : Bool} {fuel : ℕ} {work : List Work}
    (order : cap ≤ cap') (bounded : ∀ count state, .visit count state ∈ work → count + fuel ≤ cap)
    (seen : List (ℕ × MatchState)) (out : List MatchState) :
    enumerate run min cap isLazy fuel work seen out = enumerate run min cap' isLazy fuel work seen out := by
  induction fuel generalizing work seen out with
  | zero => cases work <;> rfl
  | succ fuel ih =>
    cases work with
    | nil => rfl
    | cons item work =>
      have bounded' : ∀ count state, .visit count state ∈ work → count + fuel ≤ cap := by
        intro count state mem
        have := bounded count state (List.mem_cons_of_mem _ mem)
        omega
      cases item with
      | emit state =>
        unfold enumerate
        rw [ih bounded']
      | visit count state =>
        have here := bounded count state List.mem_cons_self
        have more : count < cap := by omega
        unfold enumerate
        rw [if_pos more, if_pos (more.trans_le order)]
        refine congrArg (run state >>= ·) (funext fun found ↦ ih (fun count' state' mem ↦ ?_) _ _)
        obtain same | mem | mem := mem_pushed mem
        · cases same
        · rw [(visit_mem_nextSteps mem).1]
          omega
        · exact bounded' count' state' mem

theorem enumerateCandidates_eq :
    enumerateCandidates subject run state min max kind =
      enumerate run min (iterationBound subject state min max) (decide (kind = .lazy)) stepLimit
        [.visit 0 state] [] [] := by
  unfold enumerateCandidates
  cases max with
  | some max => rfl
  | none =>
    change enumerate run min (Min.min (subject.length - state.pos + min + 1) usizeMax) _ _ _ _ _ =
      enumerate run min (subject.length - state.pos + min + 1) _ _ _ _ _
    obtain below | above := Nat.le_total (subject.length - state.pos + min + 1) usizeMax
    · rw [Nat.min_eq_left below]
    · rw [Nat.min_eq_right above]
      refine enumerate_cap above (fun count state' mem ↦ ?_) [] []
      obtain ⟨rfl, -⟩ := Work.visit.inj (List.mem_singleton.mp mem)
      decide

theorem iterations_bound (short : subject.length < usizeMax) (min : ℕ)
    (h : iterations table subject body (max.getD usizeMax) state = some states) :
    iterations table subject body (iterationBound subject state min max) state = some states := by
  cases max with
  | some max => exact h
  | none =>
    have inSubject := (iterations_length h).1
    apply iterations_of_length_lt h
    · change states.length < usizeMax
      omega
    · change states.length < subject.length - state.pos + min + 1
      omega

/-- Something holds of the states from which a repeat runs its body. -/
def RepeatRuns (table : CharTable) (subject : List Word) (run : MatchState → Matches) (good : MatchState → Prop)
    (body : List Node) (state : MatchState) (min : ℕ) (max : Option ℕ) (kind : RepeatKind) : Prop :=
  repeatSingleUnitCandidates table subject body state min max kind = none →
    EnumerateRuns run good min (iterationBound subject state min max) (decide (kind = .lazy)) stepLimit
      [.visit 0 state] [] []

/-- The candidates of a repeat are the end states that the enumeration without limits finds, as many as
are kept. -/
theorem repeatCandidates_take (short : subject.length < usizeMax) {list : List MatchState}
    {good : MatchState → Prop} (bodies : ∀ current, good current →
      ∀ found, run current = .ok found → found = ends semantics table subject body current)
    (runs : RepeatRuns table subject run good body state min max kind)
    (h : repeatCandidates table subject run body state min max kind = .ok list) :
    list = (visit (ends semantics table subject body) min (decide (kind = .lazy))
      (iterationBound subject state min max) 0 state []).1.take resultLimit := by
  unfold repeatCandidates at h
  cases single : repeatSingleUnitCandidates table subject body state min max kind with
  | some candidates =>
    rw [single] at h
    obtain rfl := Except.ok.inj h
    obtain ⟨states, walked⟩ := exists_iterations_of_candidates single
    rw [repeatSingleUnitCandidates_of_iterations kind walked] at single
    obtain rfl := Option.some.inj single
    rw [visit_of_iterations min (decide (kind = .lazy)) (iterations_bound short min walked)
      (List.forall_mem_nil _)]
    rfl
  | none =>
    rw [single] at h
    dsimp only at h
    rw [enumerateCandidates_eq] at h
    have taken := enumerate_take bodies h (runs single)
      (fun count current mem ↦ by
        obtain ⟨rfl, rfl⟩ := Work.visit.inj (List.mem_singleton.mp mem)
        exact Nat.zero_le _)
      (by decide)
    rw [List.nil_append, perform, perform, List.append_nil] at taken
    exact taken

end Pon.Sre
