import Pon.Lib.Effect
import Pon.Sre.SingleUnit

/-!
# Where an execution ends

A node goes on where it was or further, and not past the end of the subject. What holds of every node
holds of the sequences, of the candidates of a repeat and of the threads: an execution ends between its
start and the end of the subject.
-/

namespace Pon.Sre

/-- A state at or after a position, in the subject. -/
def MatchState.Within (subject : List Word) (low : ℕ) (state : MatchState) : Prop :=
  low ≤ state.pos ∧ state.pos ≤ subject.length

variable {table : CharTable} {subject : List Word} {low : ℕ}

theorem MatchState.Within.refl {state : MatchState} (inside : state.pos ≤ subject.length) :
    state.Within subject state.pos :=
  ⟨le_rfl, inside⟩

theorem MatchState.Within.trans {state next : MatchState} (within : state.Within subject low)
    (further : next.Within subject state.pos) : next.Within subject low :=
  ⟨within.1.trans further.1, further.2⟩

theorem MatchState.within_advance {state : MatchState} (inside : state.pos < subject.length) :
    state.advance.Within subject state.pos :=
  ⟨Nat.le_succ _, inside⟩

theorem MatchState.within_setMark {state : MatchState} (inside : state.pos ≤ subject.length) (index : ℕ) :
    (state.setMark index).Within subject state.pos := by
  rw [Within, setMark_pos]
  exact ⟨le_rfl, inside⟩

/-- The states that a run yields lie at or after its start. -/
def EndsWithin (subject : List Word) (run : MatchState → Matches) : Prop :=
  ∀ state ends, run state = .ok ends → state.pos ≤ subject.length →
    ∀ next ∈ ends, next.Within subject state.pos

theorem lastCandidates_subset (min : ℕ) (isLazy : Bool) (count : ℕ) (out : List MatchState) :
    lastCandidates min isLazy count out ⊆ out := by
  intro state mem
  unfold lastCandidates at mem
  split_ifs at mem
  · exact absurd mem List.not_mem_nil
  · exact mem
  · exact List.mem_reverse.mp (List.mem_of_mem_take mem)

variable {min count : ℕ} {isLazy : Bool} {list : List MatchState}

variable {body : List Node} {out : List MatchState} {seen : List (ℕ × MatchState)}
  {run : MatchState → Matches}

theorem singleUnitLoop_within {remaining : ℕ} {current : MatchState}
    (h : singleUnitLoop table subject body min isLazy remaining count current out = some list)
    (within : current.Within subject low) (all : ∀ state ∈ out, state.Within subject low) :
    ∀ state ∈ list, state.Within subject low := by
  induction remaining generalizing count current out with
  | zero =>
    obtain rfl := Option.some.inj h
    exact fun state mem ↦ all state (lastCandidates_subset min isLazy count out mem)
  | succ remaining ih =>
    unfold singleUnitLoop at h
    cases step : repeatSingleUnitStep table subject body current with
    | unsupported =>
      rw [step] at h
      cases h
    | failed =>
      rw [step] at h
      obtain rfl := Option.some.inj h
      exact fun state mem ↦ all state (lastCandidates_subset min isLazy count out mem)
    | matched next =>
      rw [step] at h
      obtain ⟨pos, inside⟩ := singleUnitStep_false_pos step
      have further : next.Within subject low :=
        within.trans ⟨pos ▸ Nat.le_succ _, pos ▸ Nat.succ_le_of_lt inside⟩
      have more : ∀ state ∈ out ++ [next], state.Within subject low := by
        intro state mem
        obtain mem | mem := List.mem_append.mp mem
        · exact all state mem
        · exact List.mem_singleton.mp mem ▸ further
      dsimp only at h
      split_ifs at h
      · obtain rfl := Option.some.inj h
        exact more
      · exact ih h further more
      · exact ih h further all

/-- The state of a piece of work. -/
def Work.state : Work → MatchState
  | .visit _ state | .emit state => state

/-- What follows a visit are the states that the body yields. -/
theorem mem_nextSteps {state : MatchState} {found : List MatchState} {work : Work}
    (mem : work ∈ (nextSteps min count state found seen).1) :
    work.state ∈ found := by
  induction found generalizing seen with
  | nil => cases mem
  | cons next rest ih =>
    unfold nextSteps at mem
    dsimp only at mem
    split_ifs at mem
    · obtain rfl | mem := List.mem_cons.mp mem
      · exact List.mem_cons_self
      · exact List.mem_cons_of_mem _ (ih mem)
    · exact List.mem_cons_of_mem _ (ih mem)
    · obtain rfl | mem := List.mem_cons.mp mem
      · exact List.mem_cons_self
      · exact List.mem_cons_of_mem _ (ih mem)

/-- What is on the stack after a visit. -/
theorem mem_pushed {state : MatchState} {steps work : List Work} {item : Work}
    (mem : item ∈ (if isLazy then (if min ≤ count then [Work.emit state] else []) ++ steps
      else steps ++ if min ≤ count then [Work.emit state] else []) ++ work) :
    item = .emit state ∨ item ∈ steps ∨ item ∈ work := by
  have self (mem : item ∈ if min ≤ count then [Work.emit state] else []) : item = .emit state := by
    split_ifs at mem
    · exact List.mem_singleton.mp mem
    · cases mem
  obtain mem | mem := List.mem_append.mp mem
  · cases isLazy with
    | true => exact (List.mem_append.mp mem).elim (fun mem ↦ Or.inl (self mem)) (Or.inr ∘ Or.inl)
    | false => exact (List.mem_append.mp mem).elim (Or.inr ∘ Or.inl) (fun mem ↦ Or.inl (self mem))
  · exact Or.inr (Or.inr mem)

theorem enumerate_within (ends : EndsWithin subject run) {cap : ℕ} {fuel : ℕ} {work : List Work}
    (h : enumerate run min cap isLazy fuel work seen out = .ok list)
    (within : ∀ item ∈ work, item.state.Within subject low)
    (all : ∀ state ∈ out, state.Within subject low) : ∀ state ∈ list, state.Within subject low := by
  induction fuel generalizing work seen out with
  | zero =>
    cases work with
    | nil =>
      obtain rfl := Except.ok.inj h
      exact all
    | cons => cases h
  | succ fuel ih =>
    cases work with
    | nil =>
      obtain rfl := Except.ok.inj h
      exact all
    | cons item work =>
      have here := within item List.mem_cons_self
      have later : ∀ item ∈ work, item.state.Within subject low :=
        fun item mem ↦ within item (List.mem_cons_of_mem _ mem)
      cases item with
      | emit state =>
        have more : ∀ state' ∈ out ++ [state], state'.Within subject low := by
          intro state' mem
          obtain mem | mem := List.mem_append.mp mem
          · exact all state' mem
          · exact List.mem_singleton.mp mem ▸ here
        unfold enumerate at h
        split_ifs at h
        · obtain rfl := Except.ok.inj h
          exact more
        · exact ih h later more
      | visit count state =>
        unfold enumerate at h
        obtain ⟨found, ran, h⟩ := Effect.ok_of_bind h
        have foundWithin : ∀ next ∈ found, next.Within subject low := by
          split_ifs at ran
          · exact fun next mem ↦ here.trans (ends state found ran here.2 next mem)
          · obtain rfl := Except.ok.inj ran
            exact List.forall_mem_nil _
        refine ih h (fun item mem ↦ ?_) all
        obtain rfl | mem | mem := mem_pushed mem
        · exact here
        · exact foundWithin _ (mem_nextSteps mem)
        · exact later item mem

theorem repeatCandidates_within (ends : EndsWithin subject run) {state : MatchState}
    (inside : state.pos ≤ subject.length) {max : Option ℕ} {kind : RepeatKind}
    (h : repeatCandidates table subject run body state min max kind = .ok list) :
    ∀ next ∈ list, next.Within subject state.pos := by
  have start : state.Within subject state.pos := .refl inside
  unfold repeatCandidates at h
  cases single : repeatSingleUnitCandidates table subject body state min max kind with
  | some candidates =>
    rw [single] at h
    obtain rfl := Except.ok.inj h
    rw [repeatSingleUnitCandidates_eq] at single
    refine singleUnitLoop_within single start ?_
    split_ifs
    · exact List.forall_mem_singleton.mpr start
    · exact List.forall_mem_nil _
  | none =>
    rw [single] at h
    exact enumerate_within ends h (List.forall_mem_singleton.mpr start) (List.forall_mem_nil _)

section Threads

variable {bound : ℕ} {run : (body : List Node) → weight body < bound → MatchState → Bool → Matches}
  {state : MatchState}

theorem matchGroupRef_within {next : MatchState} {group : ℕ} {case : CaseMode}
    (h : matchGroupRef table subject state group case = some next) :
    next.Within subject state.pos := by
  unfold matchGroupRef at h
  obtain ⟨start, -, h⟩ := Option.bind_eq_some_iff.mp h
  obtain ⟨stop, -, h⟩ := Option.bind_eq_some_iff.mp h
  dsimp only at h
  split_ifs at h with _ outside
  · obtain rfl := Option.some.inj h
    exact ⟨Nat.le_add_right _ _, Nat.le_of_not_lt outside⟩

theorem lt_length_of_any {pos : ℕ} {accepts : Word → Bool} (h : (subject[pos]?).any accepts) :
    pos < subject.length := by
  by_contra outside
  rw [List.getElem?_eq_none (Nat.le_of_not_lt outside)] at h
  cases h

variable (ends : ∀ body smaller all, EndsWithin subject fun state ↦ run body smaller state all)
include ends

theorem follow_within
    {rest : List (Segment bound)} (inside : state.pos ≤ subject.length) {node : Node}
    {h : node.weight ≤ bound} {threads : List (Thread bound)}
    (followed : follow table subject run rest state node h = .ok threads) :
    ∀ thread ∈ threads, thread.state.Within subject state.pos := by
  have stays : state.Within subject state.pos := .refl inside
  -- The nodes that test something go on with one thread or with none.
  have tested {next : MatchState} {condition : Prop} [Decidable condition]
      (further : condition → next.Within subject state.pos) {segments : List (Segment bound)} :
      ∀ thread ∈ if condition then [(⟨segments, next⟩ : Thread bound)] else [],
        thread.state.Within subject state.pos := by
    split_ifs with passed
    · exact List.forall_mem_singleton.mpr (further passed)
    · exact List.forall_mem_nil _
  have each {states : List MatchState} (within : ∀ next ∈ states, next.Within subject state.pos) :
      ∀ thread ∈ states.map fun state ↦ (⟨rest, state⟩ : Thread bound),
        thread.state.Within subject state.pos := by
    rw [List.forall_mem_map]
    exact within
  cases node with
  | literal value case | any all | in_ set case =>
    obtain rfl := Except.ok.inj followed
    exact tested fun passed ↦ MatchState.within_advance (lt_length_of_any passed)
  | notLiteral value case =>
    obtain rfl := Except.ok.inj followed
    exact tested fun passed ↦ MatchState.within_advance passed.1
  | at_ position =>
    obtain rfl := Except.ok.inj followed
    exact tested fun _ ↦ stays
  | mark index =>
    obtain rfl := Except.ok.inj followed
    exact List.forall_mem_singleton.mpr (MatchState.within_setMark inside index)
  | groupRef group case =>
    obtain rfl := Except.ok.inj followed
    exact each fun next mem ↦ matchGroupRef_within (Option.mem_toList.mp mem)
  | groupRefExists group yes no =>
    obtain rfl := Except.ok.inj followed
    exact List.forall_mem_singleton.mpr stays
  | branch branches =>
    obtain rfl := Except.ok.inj followed
    rw [List.forall_mem_map]
    exact fun _ _ ↦ stays
  | repeat_ body min max kind =>
    unfold follow at followed
    dsimp only at followed
    split_ifs at followed
    · obtain ⟨candidates, found, followed⟩ := Effect.ok_of_bind followed
      obtain rfl := Except.ok.inj followed
      have within := repeatCandidates_within (ends body _ true) inside found
      exact each fun next mem ↦ within next (List.mem_of_mem_head? (Option.mem_toList.mp mem))
    · obtain ⟨candidates, found, followed⟩ := Effect.ok_of_bind followed
      obtain rfl := Except.ok.inj followed
      exact each (repeatCandidates_within (ends body _ true) inside found)
  | assert positive width body =>
    unfold follow at followed
    dsimp only at followed
    split_ifs at followed
    · obtain ⟨found, -, followed⟩ := Effect.ok_of_bind followed
      obtain rfl := Except.ok.inj followed
      rw [List.forall_mem_map]
      exact fun _ _ ↦ ⟨le_rfl, inside⟩
    · obtain ⟨found, -, followed⟩ := Effect.ok_of_bind followed
      obtain rfl := Except.ok.inj followed
      exact tested fun _ ↦ stays
    · obtain rfl := Except.ok.inj followed
      exact List.forall_mem_nil _
    · obtain rfl := Except.ok.inj followed
      exact List.forall_mem_singleton.mpr stays
  | atomic body =>
    obtain ⟨found, ran, followed⟩ := Effect.ok_of_bind followed
    obtain rfl := Except.ok.inj followed
    have within := ends body h false state found ran inside
    exact each fun next mem ↦ within next (List.mem_of_getLast? (Option.mem_toList.mp mem))

theorem runThreads_within {collectAll : Bool} {fuel : ℕ} {stack : List (Thread bound)}
    (h : runThreads table subject run collectAll fuel stack out = .ok list)
    (within : ∀ thread ∈ stack, thread.state.Within subject low)
    (all : ∀ state ∈ out, state.Within subject low) : ∀ state ∈ list, state.Within subject low := by
  induction fuel generalizing stack out with
  | zero =>
    cases stack with
    | nil =>
      obtain rfl := Except.ok.inj h
      exact all
    | cons => cases h
  | succ fuel ih =>
    cases stack with
    | nil =>
      obtain rfl := Except.ok.inj h
      exact all
    | cons thread stack =>
      have here := within thread List.mem_cons_self
      have later : ∀ thread ∈ stack, thread.state.Within subject low :=
        fun thread mem ↦ within thread (List.mem_cons_of_mem _ mem)
      unfold runThreads at h
      cases next : nextNode thread.segments with
      | none =>
        have more : ∀ state ∈ out ++ [thread.state], state.Within subject low := by
          intro state mem
          obtain mem | mem := List.mem_append.mp mem
          · exact all state mem
          · exact List.mem_singleton.mp mem ▸ here
        rw [next] at h
        dsimp only at h
        split_ifs at h
        · obtain rfl := Except.ok.inj h
          exact more
        · exact ih h later more
      | some node =>
        rw [next] at h
        obtain ⟨threads, followed, h⟩ := Effect.ok_of_bind h
        have further := follow_within ends here.2 followed
        refine ih h (fun thread' mem ↦ ?_) all
        obtain mem | mem := List.mem_append.mp mem
        · exact here.trans (further thread' mem)
        · exact later thread' mem

end Threads

/-- An execution ends between its start and the end of the subject. -/
theorem execute_within (nodes : List Node) (collectAll : Bool) :
    EndsWithin subject fun state ↦ execute table subject nodes state collectAll := by
  intro state ends ran inside
  dsimp only at ran
  rw [execute] at ran
  refine runThreads_within (fun body _ all ↦ ?_) ran
    (List.forall_mem_singleton.mpr (.refl inside)) (List.forall_mem_nil _)
  exact execute_within body all
termination_by weight nodes

end Pon.Sre
