import Pon.Sre.Execute

/-!
# Repeats of a single unit

A repeat whose body reads one unit between marks is enumerated by a walk. The walk yields what the
enumeration of every other repeat would yield, but it is not subject to the limit on steps.
-/

namespace Pon.Sre

variable {table : CharTable} {subject : List Word}

/-! ## One iteration -/

@[simp]
theorem setMark_pos (state : MatchState) (index : ℕ) : (state.setMark index).pos = state.pos := by
  unfold MatchState.setMark
  split_ifs <;> rfl

variable {node : Node} {count : ℕ} {out list : List MatchState} {kind : RepeatKind}

/-- A node that reads one unit is read once in an iteration. -/
theorem singleUnitStep_some {accepts : Word → Bool} (h : node.accepts table = some accepts)
    (consumed : Bool) (rest : List Node) (state : MatchState) :
    singleUnitStep table subject consumed (node :: rest) state =
      if consumed then .unsupported
      else if (subject[state.pos]?).any accepts then singleUnitStep table subject true rest state.advance
      else .failed := by
  cases node with
  | mark => cases h
  | literal | notLiteral | any | in_ =>
    obtain rfl := Option.some.inj h
    rfl
  | at_ | groupRef | groupRefExists | branch | repeat_ | assert | atomic => cases h

theorem singleUnitStep_none (h : node.accepts table = none) (notMark : ∀ index, node ≠ .mark index)
    (consumed : Bool) (rest : List Node) (state : MatchState) :
    singleUnitStep table subject consumed (node :: rest) state = .unsupported := by
  cases node with
  | mark index => exact absurd rfl (notMark index)
  | literal | notLiteral | any | in_ => cases h
  | at_ | groupRef | groupRefExists | branch | repeat_ | assert | atomic => rfl

variable {nodes body : List Node} {state next current : MatchState} {remaining min : ℕ}
  {states : List MatchState} {max : Option ℕ}

/-- An iteration that has read its unit stays where it is. -/
theorem singleUnitStep_true_pos (h : singleUnitStep table subject true nodes state = .matched next) :
    next.pos = state.pos := by
  induction nodes generalizing state with
  | nil =>
    obtain rfl := RepeatOneStep.matched.inj h
    rfl
  | cons node rest ih =>
    cases node with
    | mark index => exact (ih h).trans (setMark_pos state index)
    | literal | notLiteral | any | in_ => cases h
    | at_ | groupRef | groupRefExists | branch | repeat_ | assert | atomic => cases h

/-- An iteration reads one unit of the subject. -/
theorem singleUnitStep_false_pos
    (h : singleUnitStep table subject false nodes state = .matched next) :
    next.pos = state.pos + 1 ∧ state.pos < subject.length := by
  induction nodes generalizing state with
  | nil => cases h
  | cons node rest ih =>
    by_cases mark : ∃ index, node = .mark index
    · obtain ⟨index, rfl⟩ := mark
      have read := ih h
      rwa [setMark_pos] at read
    · cases accepts : node.accepts table with
      | none =>
        rw [singleUnitStep_none accepts fun index same ↦ mark ⟨index, same⟩] at h
        cases h
      | some accepts' =>
        rw [singleUnitStep_some accepts, if_neg Bool.false_ne_true] at h
        split_ifs at h with unit
        refine ⟨singleUnitStep_true_pos h, ?_⟩
        by_contra outside
        rw [List.getElem?_eq_none (Nat.le_of_not_lt outside)] at unit
        cases unit

/-! ## Executing the body -/

section Body

variable {bound : ℕ} {run : (body : List Node) → weight body < bound → MatchState → Bool → Matches}

variable {node : Node} {consumed : Bool} {state : MatchState}

theorem follow_accepts {accepts : Word → Bool} (h : node.accepts table = some accepts)
    (hnode : node.weight ≤ bound) (rest : List (Segment bound)) (state : MatchState) :
    follow table subject run rest state node hnode =
      .ok (if (subject[state.pos]?).any accepts then [⟨rest, state.advance⟩] else []) := by
  cases node with
  | literal value case =>
    obtain rfl := Option.some.inj h
    unfold follow
    cases subject[state.pos]? <;> rfl
  | notLiteral value case =>
    obtain rfl := Option.some.inj h
    unfold follow
    by_cases inside : state.pos < subject.length
    · simp [inside, pure, Except.pure]
    · simp [inside, pure, Except.pure]
  | any | in_ =>
    obtain rfl := Option.some.inj h
    rfl
  | mark | at_ | groupRef | groupRefExists | branch | repeat_ | assert | atomic => cases h

/-- A thread in the body alone. -/
def bodyThread (nodes : List Node) (h : weight nodes ≤ bound) (state : MatchState) : Thread bound :=
  ⟨[⟨nodes, h⟩], state⟩

theorem runThreads_done (h : weight [] ≤ bound) (state : MatchState) (fuel : ℕ) :
    runThreads table subject run true (fuel + 1) [bodyThread [] h state] [] = .ok [state] := by
  unfold runThreads
  cases fuel <;> rfl

variable {rest : List Node}

theorem runThreads_node (h : weight (node :: rest) ≤ bound) (state : MatchState) (fuel : ℕ)
    {threads : List (Thread bound)} (hnode : node.weight ≤ bound) (hrest : weight rest ≤ bound)
    (followed : follow table subject run [⟨rest, hrest⟩] state node hnode = .ok threads) :
    runThreads table subject run true (fuel + 1) [bodyThread (node :: rest) h state] [] =
      runThreads table subject run true fuel threads [] := by
  conv_lhs => unfold runThreads
  simp only [bodyThread, nextNode, followed]
  change runThreads table subject run true fuel (threads ++ []) [] = _
  rw [List.append_nil]

variable (run) in
/-- The execution of a node goes where the iteration goes, unless the iteration gives up. -/
theorem follow_singleUnitStep {result : RepeatOneStep}
    (step : singleUnitStep table subject consumed (node :: rest) state = result)
    (supported : result ≠ .unsupported) (hnode : node.weight ≤ bound) (hrest : weight rest ≤ bound) :
    (∃ consumed' state', singleUnitStep table subject consumed' rest state' = result ∧
      follow table subject run [⟨rest, hrest⟩] state node hnode = .ok [bodyThread rest hrest state']) ∨
    result = .failed ∧ follow table subject run [⟨rest, hrest⟩] state node hnode = .ok [] := by
  by_cases mark : ∃ index, node = .mark index
  · obtain ⟨index, rfl⟩ := mark
    exact Or.inl ⟨consumed, state.setMark index, step, rfl⟩
  · cases accepts : node.accepts table with
    | none =>
      rw [singleUnitStep_none accepts fun index same ↦ mark ⟨index, same⟩] at step
      exact absurd step.symm supported
    | some accepts' =>
      rw [follow_accepts accepts]
      rw [singleUnitStep_some accepts] at step
      split_ifs at step with before unit
      · exact absurd step.symm supported
      · rw [if_pos unit]
        exact Or.inl ⟨true, state.advance, step, rfl⟩
      · rw [if_neg unit]
        exact Or.inr ⟨step.symm, rfl⟩

variable (h : weight nodes ≤ bound)

theorem runThreads_of_matched
    (matched : singleUnitStep table subject consumed nodes state = .matched next) (fuel : ℕ) :
    runThreads table subject run true fuel [bodyThread nodes h state] [] =
      if nodes.length < fuel then .ok [next] else .error .executionLimit := by
  induction nodes generalizing consumed state fuel with
  | nil =>
    cases consumed with
    | false => cases matched
    | true =>
      obtain rfl := RepeatOneStep.matched.inj matched
      cases fuel with
      | zero => rfl
      | succ fuel =>
        rw [runThreads_done]
        rfl
  | cons node rest ih =>
    have hnode : node.weight ≤ bound := (Nat.le_add_right _ _).trans h
    have hrest : weight rest ≤ bound := (Nat.le_add_left _ _).trans h
    cases fuel with
    | zero => rfl
    | succ fuel =>
      have supported : RepeatOneStep.matched next ≠ .unsupported := by simp
      obtain ⟨consumed', state', step, followed⟩ | ⟨failed, _⟩ :=
        follow_singleUnitStep run matched supported hnode hrest
      · rw [runThreads_node h state fuel hnode hrest followed, ih hrest step]
        simp only [List.length_cons, Nat.succ_lt_succ_iff]
      · cases failed

theorem runThreads_of_failed
    (failed : singleUnitStep table subject consumed nodes state = .failed) (fuel : ℕ) :
    (runThreads table subject run true fuel [bodyThread nodes h state] [] = .ok [] ∨
      runThreads table subject run true fuel [bodyThread nodes h state] [] = .error .executionLimit) ∧
    (nodes.length ≤ fuel → runThreads table subject run true fuel [bodyThread nodes h state] [] = .ok []) := by
  induction nodes generalizing consumed state fuel with
  | nil => cases consumed <;> cases failed
  | cons node rest ih =>
    have hnode : node.weight ≤ bound := (Nat.le_add_right _ _).trans h
    have hrest : weight rest ≤ bound := (Nat.le_add_left _ _).trans h
    cases fuel with
    | zero => exact ⟨Or.inr rfl, fun short ↦ absurd short (Nat.not_succ_le_zero _)⟩
    | succ fuel =>
      have supported : RepeatOneStep.failed ≠ .unsupported := by simp
      obtain ⟨consumed', state', step, followed⟩ | ⟨_, followed⟩ :=
        follow_singleUnitStep run failed supported hnode hrest
      · rw [runThreads_node h state fuel hnode hrest followed]
        obtain ⟨either, enough⟩ := ih hrest step fuel
        exact ⟨either, fun short ↦ enough (Nat.le_of_succ_le_succ short)⟩
      · rw [runThreads_node h state fuel hnode hrest followed]
        have done : runThreads table subject run true fuel [] [] = .ok [] := by cases fuel <;> rfl
        exact ⟨Or.inl done, fun _ ↦ done⟩

end Body

theorem execute_eq (body : List Node) (state : MatchState) :
    execute table subject body state true =
      runThreads table subject (fun body _ state all ↦ execute table subject body state all) true stepLimit
        [bodyThread body (le_refl (weight body)) state] [] := by
  rw [execute]
  rfl

theorem execute_of_matched (h : repeatSingleUnitStep table subject body state = .matched next) :
    execute table subject body state true =
      if body.length < stepLimit then .ok [next] else .error .executionLimit := by
  rw [execute_eq]
  exact runThreads_of_matched (le_refl (weight body)) h stepLimit

theorem execute_of_failed (h : repeatSingleUnitStep table subject body state = .failed) :
    (execute table subject body state true = .ok [] ∨
      execute table subject body state true = .error .executionLimit) ∧
    (body.length ≤ stepLimit → execute table subject body state true = .ok []) := by
  rw [execute_eq]
  exact runThreads_of_failed (le_refl (weight body)) h stepLimit

/-! ## The walk -/

/-- The states after the iterations from a state on, at most a number of them; none where an iteration
is not of a single unit. -/
def iterations (table : CharTable) (subject : List Word) (body : List Node) :
    ℕ → MatchState → Option (List MatchState)
  | 0, _ => some []
  | remaining + 1, current =>
      match repeatSingleUnitStep table subject body current with
      | .unsupported => none
      | .failed => some []
      | .matched next => (iterations table subject body remaining next).map (next :: ·)

/-- What the first round of a walk does. -/
theorem iterations_cases (h : iterations table subject body (remaining + 1) current = some states) :
    repeatSingleUnitStep table subject body current = .failed ∧ states = [] ∨
      ∃ next rest, repeatSingleUnitStep table subject body current = .matched next ∧
        iterations table subject body remaining next = some rest ∧ states = next :: rest := by
  unfold iterations at h
  cases step : repeatSingleUnitStep table subject body current with
  | unsupported =>
    rw [step] at h
    cases h
  | failed =>
    rw [step] at h
    exact Or.inl ⟨rfl, (Option.some.inj h).symm⟩
  | matched next =>
    rw [step] at h
    obtain ⟨rest, walked, rfl⟩ := Option.map_eq_some_iff.mp h
    exact Or.inr ⟨next, rest, rfl, walked, rfl⟩

section

variable (h : iterations table subject body remaining current = some states)
include h

theorem iterations_length :
    states.length ≤ subject.length - current.pos ∧ states.length ≤ remaining := by
  induction remaining generalizing current states with
  | zero =>
    obtain rfl := Option.some.inj h
    exact ⟨Nat.zero_le _, Nat.zero_le _⟩
  | succ remaining ih =>
    obtain ⟨-, rfl⟩ | ⟨next, rest, step, walked, rfl⟩ := iterations_cases h
    · exact ⟨Nat.zero_le _, Nat.zero_le _⟩
    · obtain ⟨inSubject, inBound⟩ := ih walked
      obtain ⟨pos, inside⟩ := singleUnitStep_false_pos step
      rw [List.length_cons]
      omega

/-- A walk that ends before its bound ends there under every larger bound. -/
theorem iterations_of_length_lt
    (short : states.length < remaining) {remaining' : ℕ} (short' : states.length < remaining') :
    iterations table subject body remaining' current = some states := by
  induction remaining generalizing current states remaining' with
  | zero => exact absurd short (Nat.not_lt_zero _)
  | succ remaining ih =>
    obtain ⟨remaining', rfl⟩ := Nat.exists_eq_succ_of_ne_zero (Nat.ne_zero_of_lt short')
    unfold iterations
    obtain ⟨step, rfl⟩ | ⟨next, rest, step, walked, rfl⟩ := iterations_cases h
    · rw [step]
    · have again := ih walked (Nat.lt_of_succ_lt_succ short) (Nat.lt_of_succ_lt_succ short')
      simp only [step, again, Option.map_some]

end

/-- The states of the later iterations that are candidates. -/
theorem drop_of_count (next : MatchState) (rest out : List MatchState) :
    (if min ≤ count + 1 then out ++ [next] else out) ++ rest.drop (min - (count + 1 + 1)) =
      out ++ (next :: rest).drop (min - (count + 1)) := by
  by_cases enough : min ≤ count + 1
  · rw [if_pos enough, Nat.sub_eq_zero_of_le enough, Nat.sub_eq_zero_of_le (Nat.le_succ_of_le enough),
      List.drop_zero, List.drop_zero, List.append_assoc, List.singleton_append]
  · have steps : min - (count + 1) = min - (count + 1 + 1) + 1 := by omega
    rw [if_neg enough, steps, List.drop_succ_cons]

/-- A body that reads one unit somewhere does so everywhere, or fails. -/
theorem singleUnitStep_supported {consumed : Bool}
    (matched : singleUnitStep table subject consumed nodes state = .matched next)
    (state' : MatchState) :
    singleUnitStep table subject consumed nodes state' ≠ .unsupported := by
  induction nodes generalizing consumed state state' with
  | nil =>
    cases consumed with
    | false => cases matched
    | true => exact nofun
  | cons node rest ih =>
    by_cases mark : ∃ index, node = .mark index
    · obtain ⟨index, rfl⟩ := mark
      exact ih matched (state'.setMark index)
    · cases accepts : node.accepts table with
      | none =>
        rw [singleUnitStep_none accepts fun index same ↦ mark ⟨index, same⟩] at matched
        cases matched
      | some accepts' =>
        rw [singleUnitStep_some accepts] at matched ⊢
        split_ifs at matched ⊢
        · exact ih matched state'.advance
        · exact nofun

theorem exists_iterations
    (supported : ∀ state, repeatSingleUnitStep table subject body state ≠ .unsupported)
    (remaining : ℕ) (current : MatchState) :
    ∃ states, iterations table subject body remaining current = some states := by
  induction remaining generalizing current with
  | zero => exact ⟨[], rfl⟩
  | succ remaining ih =>
    unfold iterations
    cases step : repeatSingleUnitStep table subject body current with
    | unsupported => exact absurd step (supported current)
    | failed => exact ⟨[], rfl⟩
    | matched next =>
      obtain ⟨states, walked⟩ := ih next
      exact ⟨next :: states, congrArg (Option.map (next :: ·)) walked⟩

/-- Where there is no walk, the loop gives up at once. -/
theorem singleUnitLoop_eq_none {isLazy : Bool}
    (h : iterations table subject body remaining current = none) :
    singleUnitLoop table subject body min isLazy remaining count current out = none := by
  cases remaining with
  | zero => cases h
  | succ remaining =>
    unfold iterations at h
    unfold singleUnitLoop
    cases step : repeatSingleUnitStep table subject body current with
    | unsupported => rfl
    | failed =>
      rw [step] at h
      cases h
    | matched next =>
      rw [step] at h
      obtain ⟨states, walked⟩ := exists_iterations (singleUnitStep_supported step) remaining next
      dsimp only at h
      rw [walked] at h
      cases h

/-- The candidates of a walk that are kept. -/
def keptCandidates (min : ℕ) (isLazy : Bool) (count : ℕ) (out : List MatchState) : List MatchState :=
  if count < min then [] else if isLazy then out.take resultLimit else out.reverse.take resultLimit

theorem singleUnitLoop_eq (min : ℕ) (isLazy : Bool) (count : ℕ)
    (h : iterations table subject body remaining current = some states)
    (room : isLazy → out.length < resultLimit) :
    singleUnitLoop table subject body min isLazy remaining count current out =
      some (keptCandidates min isLazy (count + states.length) (out ++ states.drop (min - (count + 1)))) := by
  have last (count : ℕ) (out : List MatchState) (room : isLazy → out.length < resultLimit) :
      lastCandidates min isLazy count out = keptCandidates min isLazy count out := by
    unfold lastCandidates keptCandidates
    split_ifs with _ isLazy'
    · rfl
    · rw [List.take_of_length_le (room isLazy').le]
    · rfl
  induction remaining generalizing count current states out with
  | zero =>
    obtain rfl := Option.some.inj h
    rw [List.drop_nil, List.append_nil]
    exact congrArg some (last count out room)
  | succ remaining ih =>
    unfold singleUnitLoop
    obtain ⟨step, rfl⟩ | ⟨next, rest, step, walked, rfl⟩ := iterations_cases h <;> rw [step]
    · rw [List.drop_nil, List.append_nil]
      exact congrArg some (last count out room)
    · have moved : next.pos ≠ current.pos := by
        rw [(singleUnitStep_false_pos step).1]
        exact Nat.succ_ne_self _
      have later (more : isLazy → (if min ≤ count + 1 then out ++ [next] else out).length < resultLimit) :=
        ih (count + 1) walked more
      rw [drop_of_count, Nat.add_assoc, Nat.add_comm 1, ← List.length_cons] at later
      dsimp only
      rw [if_neg moved]
      by_cases enough : min ≤ count + 1
      · rw [if_pos enough] at later ⊢
        split_ifs with full
        · have length : (out ++ [next]).length = out.length + 1 := List.length_append
          have exactly : (out ++ [next]).length = resultLimit := by
            have := room full.1
            omega
          unfold keptCandidates
          rw [if_neg (by rw [List.length_cons]; omega), if_pos full.1, Nat.sub_eq_zero_of_le enough,
            List.drop_zero, List.append_cons out next rest, ← exactly, List.take_left]
        · exact later fun isLazy' ↦ Nat.lt_of_not_le fun long ↦ full ⟨isLazy', long⟩
      · rw [if_neg enough] at later ⊢
        exact later room

/-- The candidates of a walk: the states after enough iterations. -/
def walkCandidates (min : ℕ) (isLazy : Bool) (states : List MatchState) : List MatchState :=
  if isLazy then states.drop min else (states.drop min).reverse

theorem start_candidates (min : ℕ) (state : MatchState) (states : List MatchState) :
    (if min = 0 then [state] else []) ++ states.drop (min - (0 + 1)) = (state :: states).drop min := by
  cases min with
  | zero => rfl
  | succ min => rfl

theorem repeatSingleUnitCandidates_eq (body : List Node) (state : MatchState) (min : ℕ) (max : Option ℕ)
    (kind : RepeatKind) : repeatSingleUnitCandidates table subject body state min max kind =
      singleUnitLoop table subject body min (decide (kind = .lazy)) (max.getD usizeMax) 0 state
        (if min = 0 then [state] else []) := by
  have short : ¬resultLimit ≤ (if min = 0 then [state] else []).length := by
    split_ifs <;> simp [resultLimit]
  unfold repeatSingleUnitCandidates
  dsimp only
  rw [if_neg fun full ↦ short full.2.2]

/-- The candidates of a walk are as many as are kept. -/
theorem repeatSingleUnitCandidates_of_iterations (kind : RepeatKind)
    (walk : iterations table subject body (max.getD usizeMax) state = some states) :
    repeatSingleUnitCandidates table subject body state min max kind =
      some ((walkCandidates min (decide (kind = .lazy)) (state :: states)).take resultLimit) := by
  have room : (if min = 0 then [state] else []).length < resultLimit := by
    split_ifs <;> simp [resultLimit]
  rw [repeatSingleUnitCandidates_eq, singleUnitLoop_eq min _ 0 walk fun _ ↦ room, start_candidates,
    Nat.zero_add]
  unfold keptCandidates walkCandidates
  split_ifs with few isLazy
  · rw [List.drop_eq_nil_of_le (Nat.succ_le_of_lt few), List.take_nil]
  · rw [List.drop_eq_nil_of_le (Nat.succ_le_of_lt few), List.reverse_nil, List.take_nil]
  · rfl
  · rfl

theorem exists_iterations_of_candidates
    (h : repeatSingleUnitCandidates table subject body state min max kind = some list) :
    ∃ states, iterations table subject body (max.getD usizeMax) state = some states := by
  rw [repeatSingleUnitCandidates_eq] at h
  cases walk : iterations table subject body (max.getD usizeMax) state with
  | none =>
    rw [singleUnitLoop_eq_none walk] at h
    cases h
  | some states => exact ⟨states, rfl⟩

theorem length_walkCandidates (min : ℕ) (isLazy : Bool) (states : List MatchState) :
    (walkCandidates min isLazy states).length = (states.drop min).length := by
  unfold walkCandidates
  split_ifs
  · rfl
  · exact List.length_reverse

theorem repeatSingleUnitCandidates_of_walk (kind : RepeatKind)
    (h : iterations table subject body (max.getD usizeMax) state = some states)
    (below : ((state :: states).drop min).length < resultLimit) :
    repeatSingleUnitCandidates table subject body state min max kind =
      some (walkCandidates min (decide (kind = .lazy)) (state :: states)) := by
  rw [repeatSingleUnitCandidates_of_iterations kind h, List.take_of_length_le]
  rw [length_walkCandidates]
  exact below.le

/-- The walk behind a list of candidates. -/
theorem repeatSingleUnitCandidates_eq_some
    (h : repeatSingleUnitCandidates table subject body state min max kind = some list)
    (below : list.length < resultLimit) :
    ∃ states, iterations table subject body (max.getD usizeMax) state = some states ∧
      list = walkCandidates min (decide (kind = .lazy)) (state :: states) := by
  obtain ⟨states, walked⟩ := exists_iterations_of_candidates h
  refine ⟨states, walked, ?_⟩
  rw [repeatSingleUnitCandidates_of_iterations kind walked] at h
  obtain rfl := Option.some.inj h
  rw [List.length_take] at below
  exact List.take_of_length_le (by omega)

/-! ## The enumeration -/

/-- Running the body from a state on yields these states one after the other, until there are no more
iterations or until it fails. -/
def Iterates (run : MatchState → Matches) : ℕ → MatchState → List MatchState → Prop
  | 0, _, states => states = []
  | _ + 1, current, [] => run current = .ok []
  | remaining + 1, current, next :: rest =>
      run current = .ok [next] ∧ next.pos ≠ current.pos ∧ Iterates run remaining next rest

section Enumerate

variable {run : MatchState → Matches} {min cap : ℕ} {isLazy : Bool}

/-- The candidate of a visit. -/
def stopAt (min count : ℕ) (state : MatchState) : List MatchState :=
  if min ≤ count then [state] else []

theorem stopAt_append (min count : ℕ) (state next : MatchState) (rest : List MatchState) :
    stopAt min count state ++ (next :: rest).drop (min - (count + 1)) =
      (state :: next :: rest).drop (min - count) := by
  unfold stopAt
  by_cases enough : min ≤ count
  · rw [if_pos enough, Nat.sub_eq_zero_of_le enough, Nat.sub_eq_zero_of_le (Nat.le_succ_of_le enough)]
    rfl
  · have steps : min - count = min - (count + 1) + 1 := by omega
    rw [if_neg enough, steps, List.drop_succ_cons, List.nil_append]

theorem stopAt_last (min count : ℕ) (state : MatchState) :
    stopAt min count state = [state].drop (min - count) := by
  unfold stopAt
  by_cases enough : min ≤ count
  · rw [if_pos enough, Nat.sub_eq_zero_of_le enough, List.drop_zero]
  · rw [if_neg enough, List.drop_eq_nil_of_le]
    rw [List.length_singleton]
    omega

theorem reverse_stopAt (min count : ℕ) (state : MatchState) :
    (stopAt min count state).reverse = stopAt min count state := by
  unfold stopAt
  split_ifs <;> rfl

variable {count : ℕ} {state : MatchState} {seen : List (ℕ × MatchState)}

/-- A visit of a state from which the body yields nothing. -/
theorem enumerate_visit_last (h : count < cap → run state = .ok []) (fuel : ℕ) (work : List Work)
    (seen : List (ℕ × MatchState)) (out : List MatchState) :
    enumerate run min cap isLazy (fuel + 1) (.visit count state :: work) seen out =
      enumerate run min cap isLazy fuel ((stopAt min count state).map .emit ++ work) seen out := by
  have yields : (if count < cap then run state else .ok []) = .ok [] := by
    split_ifs with more
    · exact h more
    · rfl
  have stop : (stopAt min count state).map Work.emit = if min ≤ count then [Work.emit state] else [] := by
    unfold stopAt
    split_ifs <;> rfl
  conv_lhs => unfold enumerate
  rw [yields, stop]
  cases isLazy <;> simp [nextSteps, bind, Except.bind]

/-- A visit of a state from which the body yields one state that has not been seen. -/
theorem enumerate_visit_next (more : count < cap) (h : run state = .ok [next])
    (moved : next.pos ≠ state.pos) (unseen : (count + 1, next) ∉ seen) (fuel : ℕ) (work : List Work)
    (out : List MatchState) :
    enumerate run min cap isLazy (fuel + 1) (.visit count state :: work) seen out =
      enumerate run min cap isLazy fuel
        ((if isLazy then (stopAt min count state).map .emit ++ [.visit (count + 1) next]
          else .visit (count + 1) next :: (stopAt min count state).map .emit) ++ work)
        ((count + 1, next) :: seen) out := by
  have stop : (stopAt min count state).map Work.emit = if min ≤ count then [Work.emit state] else [] := by
    unfold stopAt
    split_ifs <;> rfl
  conv_lhs => unfold enumerate
  rw [if_pos more, h, stop]
  cases isLazy <;> simp [nextSteps, bind, Except.bind, moved, unseen]

theorem enumerate_emit (below : out.length + 1 < resultLimit) (fuel : ℕ)
    (work : List Work) (seen : List (ℕ × MatchState)) :
    enumerate run min cap isLazy (fuel + 1) (.emit state :: work) seen out =
      enumerate run min cap isLazy fuel work seen (out ++ [state]) := by
  conv_lhs => unfold enumerate
  rw [List.length_append, List.length_singleton, if_neg (Nat.not_le_of_lt below)]

theorem enumerate_nil (fuel : ℕ) (seen : List (ℕ × MatchState)) (out : List MatchState) :
    enumerate run min cap isLazy fuel [] seen out = .ok out := by
  cases fuel <;> rfl

theorem enumerate_emits (states : List MatchState) (work : List Work) (fuel : ℕ)
    (seen : List (ℕ × MatchState)) (out : List MatchState)
    (below : out.length + states.length < resultLimit) :
    enumerate run min cap isLazy fuel (states.map .emit ++ work) seen out =
      if states.length ≤ fuel then
        enumerate run min cap isLazy (fuel - states.length) work seen (out ++ states)
      else .error .executionLimit := by
  induction states generalizing fuel out with
  | nil =>
    rw [List.append_nil]
    exact (if_pos (Nat.zero_le fuel)).symm
  | cons state rest ih =>
    cases fuel with
    | zero => rfl
    | succ fuel =>
      rw [List.length_cons] at below
      have below' : (out ++ [state]).length + rest.length < resultLimit := by
        rw [List.length_append, List.length_singleton]
        omega
      rw [List.map_cons, List.cons_append, enumerate_emit (by omega), ih fuel _ below', List.append_assoc,
        List.singleton_append, List.length_cons, Nat.succ_sub_succ]
      simp only [Nat.succ_le_succ_iff]

theorem unseen_of_counts (counts : ∀ key ∈ seen, key.1 ≤ count) (next : MatchState) :
    (count + 1, next) ∉ seen := fun mem ↦ Nat.not_succ_le_self count (counts _ mem)

theorem counts_cons (counts : ∀ key ∈ seen, key.1 ≤ count) (next : MatchState) :
    ∀ key ∈ (count + 1, next) :: seen, key.1 ≤ count + 1 :=
  List.forall_mem_cons.mpr ⟨le_rfl, fun key mem ↦ Nat.le_succ_of_le (counts key mem)⟩

theorem stopAt_walk (min count : ℕ) (isLazy : Bool) (state : MatchState) :
    stopAt min count state = walkCandidates (min - count) isLazy [state] := by
  unfold walkCandidates
  rw [← stopAt_last, reverse_stopAt, ite_self]

/-- A lazy walk has its first state first, and a greedy one has it last. -/
theorem walkCandidates_next (min count : ℕ) (isLazy : Bool) (state next : MatchState)
    (rest : List MatchState) :
    walkCandidates (min - count) isLazy (state :: next :: rest) =
      if isLazy then stopAt min count state ++ walkCandidates (min - (count + 1)) isLazy (next :: rest)
      else walkCandidates (min - (count + 1)) isLazy (next :: rest) ++ stopAt min count state := by
  unfold walkCandidates
  rw [← stopAt_append]
  cases isLazy with
  | true => rfl
  | false => simp [reverse_stopAt]

variable (min isLazy) in
/-- The lazy enumeration emits each state before it goes on, and the greedy one visits all the iterations
before it emits; `acc` is what the visits before have left to emit. -/
theorem enumerate_walk (h : Iterates run remaining current states) (hcap : count + remaining = cap)
    (counts : ∀ key ∈ seen, key.1 ≤ count) (out acc : List MatchState)
    (below : out.length + (((current :: states).drop (min - count)).length + acc.length) < resultLimit)
    (fuel : ℕ) :
    enumerate run min cap isLazy fuel (.visit count current :: acc.map .emit) seen out =
      if states.length + 1 + (((current :: states).drop (min - count)).length + acc.length) ≤ fuel then
        .ok (out ++ (walkCandidates (min - count) isLazy (current :: states) ++ acc))
      else .error .executionLimit := by
  induction states generalizing remaining count current seen out acc fuel with
  | nil =>
    have last : count < cap → run current = .ok [] := by
      intro more
      cases remaining with
      | zero => omega
      | succ remaining => exact h
    cases fuel with
    | zero =>
      rw [if_neg (by omega)]
      rfl
    | succ fuel =>
      rw [← stopAt_last, ← List.length_append] at below ⊢
      rw [enumerate_visit_last last, ← List.map_append, ← List.append_nil (List.map _ _),
        enumerate_emits _ _ _ _ _ below, enumerate_nil, ← stopAt_walk]
      simp only [List.length_nil, Nat.zero_add, Nat.add_comm 1, Nat.succ_le_succ_iff]
  | cons next rest ih =>
    cases remaining with
    | zero => cases h
    | succ remaining =>
      obtain ⟨yields, moved, walk⟩ := h
      cases fuel with
      | zero =>
        rw [if_neg (by omega)]
        rfl
      | succ fuel =>
        rw [← stopAt_append, List.length_append] at below ⊢
        have later := ih walk (by omega) (counts_cons counts next)
        rw [enumerate_visit_next (by omega) yields moved (unseen_of_counts counts next),
          walkCandidates_next, List.length_cons]
        cases isLazy with
        | true =>
          simp only [if_true, List.append_assoc, List.singleton_append]
          rw [enumerate_emits _ _ _ _ _ (by omega), later _ _ (by rw [List.length_append]; omega),
            List.append_assoc]
          split_ifs <;> first | rfl | omega
        | false =>
          simp only [Bool.false_eq_true, if_false, List.cons_append, List.append_assoc]
          rw [← List.map_append, later _ _ (by rw [List.length_append]; omega), List.length_append]
          split_ifs <;> first | rfl | omega

end Enumerate

/-! ## The walk and the enumeration -/

/-- Runs the body of a repeat on its own. -/
abbrev runBody (table : CharTable) (subject : List Word) (body : List Node) (state : MatchState) : Matches :=
  execute table subject body state true

theorem iterates_of_iterations (short : body.length < stepLimit)
    (h : iterations table subject body remaining current = some states) :
    Iterates (runBody table subject body) remaining current states := by
  induction remaining generalizing current states with
  | zero => exact (Option.some.inj h).symm
  | succ remaining ih =>
    obtain ⟨step, rfl⟩ | ⟨next, rest, step, walked, rfl⟩ := iterations_cases h
    · exact (execute_of_failed step).2 short.le
    · refine ⟨(execute_of_matched step).trans (if_pos short), ?_, ih walked⟩
      rw [(singleUnitStep_false_pos step).1]
      exact Nat.succ_ne_self _

/-- A body of too many nodes may hit the limit in its first iteration. -/
theorem iterates_or_error (h : iterations table subject body remaining current = some states) :
    Iterates (runBody table subject body) remaining current states ∨
      0 < remaining ∧ runBody table subject body current = .error .executionLimit := by
  by_cases short : body.length < stepLimit
  · exact Or.inl (iterates_of_iterations short h)
  · cases remaining with
    | zero => exact Or.inl (Option.some.inj h).symm
    | succ remaining =>
      obtain ⟨step, rfl⟩ | ⟨next, rest, step, -, -⟩ := iterations_cases h
      · obtain nothing | error := (execute_of_failed step).1
        · exact Or.inl nothing
        · exact Or.inr ⟨Nat.succ_pos remaining, error⟩
      · exact Or.inr ⟨Nat.succ_pos remaining, (execute_of_matched step).trans (if_neg short)⟩

/-- The bounds of the walk and of the enumeration end it at the same place. -/
theorem iterations_repeatCap (min : ℕ)
    (h : iterations table subject body (max.getD usizeMax) state = some states) :
    iterations table subject body (repeatCap subject state min max) state = some states := by
  cases max with
  | some max => exact h
  | none =>
    have inSubject := (iterations_length h).1
    unfold repeatCap
    change iterations table subject body (Min.min (subject.length - state.pos + min + 1) usizeMax) state = _
    by_cases saturates : usizeMax ≤ subject.length - state.pos + min + 1
    · rw [Nat.min_eq_right saturates]
      exact h
    · have less := Nat.lt_of_not_le saturates
      have bounded : Min.min (subject.length - state.pos + min + 1) usizeMax =
          subject.length - state.pos + min + 1 := Nat.min_eq_left less.le
      rw [bounded]
      apply iterations_of_length_lt h
      · change states.length < usizeMax
        omega
      · omega

theorem enumerateCandidates_of_iterates {run : MatchState → Matches} (kind : RepeatKind)
    (h : Iterates run (repeatCap subject state min max) state states)
    (below : ((state :: states).drop min).length < resultLimit) :
    enumerateCandidates subject run state min max kind =
      if states.length + 1 + ((state :: states).drop min).length ≤ stepLimit then
        .ok (walkCandidates min (decide (kind = .lazy)) (state :: states))
      else .error .executionLimit := by
  unfold enumerateCandidates walkCandidates
  have none : ∀ key ∈ ([] : List (ℕ × MatchState)), key.1 ≤ 0 := fun _ mem ↦ absurd mem List.not_mem_nil
  have walk := enumerate_walk min (decide (kind = .lazy)) h (Nat.zero_add _) none [] [] (by simpa using below)
    stepLimit
  simpa [walkCandidates] using walk

/-- The candidates of the walk are those of the enumeration, unless the enumeration gives up at its limit
of steps; it does not if the body and what is left of the subject are short enough. -/
theorem repeatSingleUnitCandidates_refines {body : List Node} {state : MatchState} {min : ℕ}
    {max : Option ℕ} {kind : RepeatKind} {list : List MatchState}
    (h : repeatSingleUnitCandidates table subject body state min max kind = some list)
    (below : list.length < resultLimit) :
    (enumerateCandidates subject (runBody table subject body) state min max kind = .ok list ∨
      enumerateCandidates subject (runBody table subject body) state min max kind =
        .error .executionLimit) ∧
    (body.length < stepLimit → 2 * (subject.length - state.pos) + 2 ≤ stepLimit →
      enumerateCandidates subject (runBody table subject body) state min max kind = .ok list) := by
  obtain ⟨states, walked, rfl⟩ := repeatSingleUnitCandidates_eq_some h below
  rw [length_walkCandidates] at below
  have capped := iterations_repeatCap min walked
  constructor
  · obtain iterates | ⟨more, error⟩ := iterates_or_error capped
    · rw [enumerateCandidates_of_iterates kind iterates below]
      split_ifs
      · exact Or.inl rfl
      · exact Or.inr rfl
    · right
      unfold enumerateCandidates
      change enumerate _ _ _ _ (3999999 + 1) _ _ _ = _
      unfold enumerate
      rw [if_pos more, error]
      rfl
  · intro short steps
    have inSubject := (iterations_length walked).1
    have few : ((state :: states).drop min).length ≤ states.length + 1 := by
      rw [List.length_drop, List.length_cons]
      exact Nat.sub_le _ _
    rw [enumerateCandidates_of_iterates kind (iterates_of_iterations short capped) below]
    exact if_pos (by omega)

/-- The classes of the ASCII characters. -/
def asciiTable : CharTable where
  toLowercase := Char.toLower
  toUppercase := Char.toUpper
  isNumeric := Char.isDigit
  isWhitespace := Char.isWhitespace
  isAlphanumeric := Char.isAlphanum

/-- The greedy repeat of the group `(a)` on `aab`, at least once. -/
theorem repeatSingleUnitCandidates_refines_group :
    enumerateCandidates [97, 97, 98] (runBody asciiTable [97, 97, 98]
        [.mark 0, .literal 97 .exact, .mark 1]) ⟨0, [none, none], none⟩ 1 none .greedy =
      .ok [⟨2, [some 1, some 2], some 1⟩, ⟨1, [some 0, some 1], some 1⟩] :=
  (@repeatSingleUnitCandidates_refines asciiTable [97, 97, 98] [.mark 0, .literal 97 .exact, .mark 1]
    ⟨0, [none, none], none⟩ 1 none .greedy _ (by decide +kernel) (by decide)).2 (by decide) (by decide)

/-! ## A walk past the limit -/

/-- The literal `a` on a subject of that many of them. -/
theorem iterations_replicate (n remaining k pos : ℕ) (hpos : pos + k = n) (more : k < remaining) :
    iterations asciiTable (List.replicate n 97) [.literal 97 .exact] remaining ⟨pos, [], none⟩ =
      some ((List.range' (pos + 1) k).map fun pos ↦ ⟨pos, [], none⟩) := by
  induction k generalizing remaining pos with
  | zero =>
    obtain ⟨remaining, rfl⟩ := Nat.exists_eq_succ_of_ne_zero (Nat.ne_zero_of_lt more)
    have outside : (List.replicate n 97)[pos]? = none := by
      rw [List.getElem?_eq_none]
      rw [List.length_replicate]
      omega
    have step : repeatSingleUnitStep asciiTable (List.replicate n 97) [.literal 97 .exact] ⟨pos, [], none⟩ =
        .failed := by
      rw [repeatSingleUnitStep, singleUnitStep_some rfl, outside]
      rfl
    unfold iterations
    rw [step]
    rfl
  | succ k ih =>
    obtain ⟨remaining, rfl⟩ := Nat.exists_eq_succ_of_ne_zero (Nat.ne_zero_of_lt more)
    have inside : (List.replicate n 97)[pos]? = some 97 := by
      rw [List.getElem?_replicate, if_pos (by omega)]
    have step : repeatSingleUnitStep asciiTable (List.replicate n 97) [.literal 97 .exact] ⟨pos, [], none⟩ =
        .matched ⟨pos + 1, [], none⟩ := by
      rw [repeatSingleUnitStep, singleUnitStep_some rfl, inside]
      rfl
    have walked := ih remaining (pos + 1) (by omega) (Nat.lt_of_succ_lt_succ more)
    unfold iterations
    rw [step]
    simp only [walked, Option.map_some]
    rw [List.range'_succ]
    rfl

/-- From as many iterations as the enumeration has steps, the walk has a candidate and the enumeration
gives up. -/
theorem walk_past_limit {n : ℕ} (many : stepLimit ≤ n) (bounded : n < usizeMax) :
    ∃ list, list.length < resultLimit ∧
      repeatSingleUnitCandidates asciiTable (List.replicate n 97) [.literal 97 .exact] ⟨0, [], none⟩ n none
        .greedy = some list ∧
      enumerateCandidates (List.replicate n 97) (runBody asciiTable (List.replicate n 97) [.literal 97 .exact])
        ⟨0, [], none⟩ n none .greedy = .error .executionLimit := by
  have walked := iterations_replicate n ((none : Option ℕ).getD usizeMax) n 0 (Nat.zero_add _) bounded
  set states : List MatchState := (List.range' (0 + 1) n).map fun pos ↦ ⟨pos, [], none⟩
  have length : states.length = n := by rw [List.length_map, List.length_range']
  have one : ((⟨0, [], none⟩ :: states).drop n).length = 1 := by
    rw [List.length_drop, List.length_cons, length]
    omega
  have below : ((⟨0, [], none⟩ :: states).drop n).length < resultLimit := by
    rw [one]
    decide
  refine ⟨_, ?_, repeatSingleUnitCandidates_of_walk .greedy walked below, ?_⟩
  · unfold walkCandidates
    rw [if_neg (by decide), List.length_reverse]
    exact below
  · have short : [Node.literal 97 .exact].length < stepLimit := by decide
    have iterates := iterates_of_iterations short (iterations_repeatCap n walked)
    rw [enumerateCandidates_of_iterates .greedy iterates below]
    exact if_neg (by omega)

theorem repeatSingleUnitCandidates_past_limit :
    ∃ list, list.length < resultLimit ∧
      repeatSingleUnitCandidates asciiTable (List.replicate stepLimit 97) [.literal 97 .exact]
        ⟨0, [], none⟩ stepLimit none .greedy = some list ∧
      enumerateCandidates (List.replicate stepLimit 97)
        (runBody asciiTable (List.replicate stepLimit 97) [.literal 97 .exact]) ⟨0, [], none⟩ stepLimit none
        .greedy = .error .executionLimit :=
  walk_past_limit le_rfl (by decide)

end Pon.Sre
