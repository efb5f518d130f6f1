import Pon.Sre.Exploration

/-!
# Enumerating a repeat

The engine enumerates a repeat depth first and visits no state twice with the same count. It finds what
the iterations find, but for states that have been found before.
-/

namespace Pon.Sre

open Alternatives

section Iterations

variable {run : MatchState → List MatchState} {min : ℕ} {isLazy : Bool}

theorem perform_append (visit : ℕ → MatchState → List (ℕ × MatchState) → List MatchState × List (ℕ × MatchState))
    (work later : List Work) (seen : List (ℕ × MatchState)) :
    perform visit (work ++ later) seen =
      let first := perform visit work seen
      let second := perform visit later first.2
      (first.1 ++ second.1, second.2) := by
  induction work generalizing seen with
  | nil => rfl
  | cons item work ih =>
    cases item with
    | emit state =>
      rw [List.cons_append, perform, perform, ih]
      rfl
    | visit count state =>
      rw [List.cons_append, perform, perform, ih]
      simp only [List.append_assoc]

/-- What a piece of work yields where nothing has been seen. -/
def Work.yields (fresh : ℕ → MatchState → List MatchState) : Work → List MatchState
  | .emit state => [state]
  | .visit count state => fresh count state

/-- The keys of a count are done: what they yield is among the states found. -/
def Done (fresh : ℕ → MatchState → List MatchState) (found : List MatchState) (key : ℕ × MatchState) : Prop :=
  ∀ state ∈ fresh key.1 key.2, state ∈ found

variable {key : ℕ × MatchState} {following : List MatchState} {work : List Work} {cap : ℕ}
  {start : MatchState} {fresh : ℕ → MatchState → List MatchState}

theorem Done.mono {found found' : List MatchState}
    (done : Done fresh found key) (more : found ⊆ found') : Done fresh found' key :=
  fun state mem ↦ more (done state mem)

/-- The steps that are left out yield nothing new. -/
theorem alike_nextSteps {count : ℕ} {state : MatchState}
    (following : List MatchState) {seen : List (ℕ × MatchState)} {found : List MatchState}
    (done : ∀ next, (count + 1, next) ∈ seen → Done fresh found (count + 1, next)) :
    Alike (found ++ (nextSteps min count state following seen).1.flatMap (Work.yields fresh))
      (found ++ following.flatMap fun next ↦
        if next.pos = state.pos ∧ min ≤ count then [next] else fresh (count + 1) next) := by
  induction following generalizing seen found with
  | nil => exact .refl
  | cons next rest ih =>
    unfold nextSteps
    dsimp only
    rw [List.flatMap_cons, ← List.append_assoc]
    split_ifs with trailing old
    · rw [List.flatMap_cons, ← List.append_assoc]
      exact ih fun next' mem ↦ (done next' mem).mono (List.subset_append_left _ _)
    · exact (ih done).trans (Agree.absorb (done next old)).symm
    · rw [List.flatMap_cons, ← List.append_assoc]
      refine ih fun next' mem ↦ ?_
      obtain same | mem := List.mem_cons.mp mem
      · rw [same]
        exact fun state mem ↦ List.mem_append_right _ mem
      · exact (done next' mem).mono (List.subset_append_left _ _)

/-- The keys that the next steps add are those of their visits. -/
theorem mem_nextSteps_seen {count : ℕ} {state : MatchState} {seen : List (ℕ × MatchState)}
    (mem : key ∈ (nextSteps min count state following seen).2) :
    key ∈ seen ∨ key.1 = count + 1 ∧ .visit key.1 key.2 ∈ (nextSteps min count state following seen).1 := by
  induction following generalizing seen with
  | nil => exact Or.inl mem
  | cons next rest ih =>
    unfold nextSteps at mem ⊢
    dsimp only at mem ⊢
    split_ifs at mem ⊢
    · exact (ih mem).imp_right fun added ↦ ⟨added.1, List.mem_cons_of_mem _ added.2⟩
    · exact ih mem
    · obtain old | added := ih mem
      · obtain rfl | old := List.mem_cons.mp old
        · exact Or.inr ⟨rfl, List.mem_cons_self⟩
        · exact Or.inl old
      · exact Or.inr ⟨added.1, List.mem_cons_of_mem _ added.2⟩

theorem visit_mem_nextSteps {count : ℕ} {state : MatchState} {seen : List (ℕ × MatchState)}
    {count' : ℕ} {state' : MatchState}
    (mem : .visit count' state' ∈ (nextSteps min count state following seen).1) :
    count' = count + 1 ∧ state' ∈ following ∧ ¬(state'.pos = state.pos ∧ min ≤ count) := by
  induction following generalizing seen with
  | nil => cases mem
  | cons next rest ih =>
    have later (mem : .visit count' state' ∈ (nextSteps min count state rest seen).1) :=
      (ih mem).imp_right (And.imp_left (List.mem_cons_of_mem next))
    unfold nextSteps at mem
    dsimp only at mem
    split_ifs at mem with trailing
    · obtain same | mem := List.mem_cons.mp mem
      · cases same
      · exact later mem
    · exact later mem
    · obtain same | mem := List.mem_cons.mp mem
      · cases same
        exact ⟨rfl, List.mem_cons_self, trailing⟩
      · exact (ih mem).imp_right (And.imp_left (List.mem_cons_of_mem next))

/-- What is found after a computation that starts with some states found and some keys seen: nothing but
what is to be found, no keys of earlier counts, and all keys of later counts are done. -/
structure Enumerates (fresh : ℕ → MatchState → List MatchState) (count : ℕ) (found : List MatchState)
    (seen : List (ℕ × MatchState)) (outcome : List MatchState × List (ℕ × MatchState))
    (expected : List MatchState) : Prop where
  alike : Alike (found ++ outcome.1) (found ++ expected)
  later : ∀ key ∈ outcome.2, key ∈ seen ∨ count < key.1
  done : ∀ key ∈ outcome.2, count < key.1 → Done fresh (found ++ outcome.1) key

variable {fresh : ℕ → MatchState → List MatchState}

/-- Working off visits of one count, if one visit finds what it should. -/
theorem enumerates_perform {count : ℕ}
    {visit : ℕ → MatchState → List (ℕ × MatchState) → List MatchState × List (ℕ × MatchState)}
    (visits : ∀ state seen found, (∀ key ∈ seen, count < key.1 → Done fresh found key) →
      Enumerates fresh count found seen (visit count state seen) (fresh count state))
    {seen : List (ℕ × MatchState)} {found : List MatchState}
    (counts : ∀ count' state, .visit count' state ∈ work → count' = count)
    (done : ∀ key ∈ seen, count ≤ key.1 →
      Done fresh found key ∨ key.1 = count ∧ .visit key.1 key.2 ∈ work) :
    Alike (found ++ (perform visit work seen).1) (found ++ work.flatMap (Work.yields fresh)) ∧
      (∀ key ∈ (perform visit work seen).2, key ∈ seen ∨ count < key.1) ∧
      ∀ key ∈ (perform visit work seen).2, count ≤ key.1 →
        Done fresh (found ++ (perform visit work seen).1) key := by
  induction work generalizing seen found with
  | nil =>
    refine ⟨.refl, fun key mem ↦ Or.inl mem, fun key mem after ↦ ?_⟩
    obtain done | ⟨-, mem⟩ := done key mem after
    · exact done.mono (List.subset_append_left _ _)
    · cases mem
  | cons item work ih =>
    have counts' : ∀ count' state, .visit count' state ∈ work → count' = count :=
      fun count' state mem ↦ counts count' state (List.mem_cons_of_mem _ mem)
    cases item with
    | emit state =>
      have rest := @ih seen (found ++ [state]) counts' fun key mem after ↦ by
        obtain done | ⟨same, mem⟩ := done key mem after
        · exact Or.inl (done.mono (List.subset_append_left _ _))
        · obtain other | mem := List.mem_cons.mp mem
          · cases other
          · exact Or.inr ⟨same, mem⟩
      simp only [List.append_assoc, List.singleton_append] at rest
      exact rest
    | visit count' state =>
      obtain rfl := counts count' state List.mem_cons_self
      obtain ⟨alike, later, done'⟩ := visits state seen found fun key mem after ↦ by
        obtain done | ⟨same, -⟩ := done key mem after.le
        · exact done
        · exact absurd same after.ne'
      have isDone : Done fresh (found ++ (visit count' state seen).1) (count', state) := fun state mem ↦
        (alike.mem_iff state).mpr (List.mem_append_right _ mem)
      have rest := @ih (visit count' state seen).2 (found ++ (visit count' state seen).1) counts'
        fun key mem after ↦ by
          obtain same | after := Nat.eq_or_lt_of_le after
          · obtain mem | after := later key mem
            · obtain done | ⟨-, mem⟩ := done key mem after
              · exact Or.inl (done.mono (List.subset_append_left _ _))
              · obtain this | mem := List.mem_cons.mp mem
                · have isKey : key = (count', state) := Prod.ext same.symm (Work.visit.inj this).2
                  exact Or.inl (isKey ▸ isDone)
                · exact Or.inr ⟨same.symm, mem⟩
            · exact absurd same after.ne
          · exact Or.inl (done' key mem after)
      obtain ⟨alike', later', done''⟩ := rest
      rw [perform, List.flatMap_cons]
      refine ⟨?_, fun key mem ↦ ?_, fun key mem after ↦ ?_⟩
      · rw [← List.append_assoc, ← List.append_assoc]
        exact alike'.trans (alike.append fun _ ↦ .refl)
      · exact (later' key mem).elim (later key) Or.inr
      · rw [← List.append_assoc]
        exact done'' key mem after

/-- The steps after a visit find what follows it, if the visits of the next count do. -/
theorem enumerates_nextSteps {run : MatchState → List MatchState} {count : ℕ} {state : MatchState}
    {visit : ℕ → MatchState → List (ℕ × MatchState) → List MatchState × List (ℕ × MatchState)}
    (visits : ∀ state seen found, (∀ key ∈ seen, count + 1 < key.1 → Done fresh found key) →
      Enumerates fresh (count + 1) found seen (visit (count + 1) state seen) (fresh (count + 1) state))
    {seen : List (ℕ × MatchState)} {found : List MatchState}
    (done : ∀ key ∈ seen, count < key.1 → Done fresh found key) :
    Enumerates fresh count found seen
      (perform visit (nextSteps min count state (run state) seen).1
        (nextSteps min count state (run state) seen).2)
      ((run state).flatMap fun next ↦
        if next.pos = state.pos ∧ min ≤ count then [next] else fresh (count + 1) next) := by
  obtain ⟨alike, later, done'⟩ := enumerates_perform visits
    (fun count' state' mem ↦ (visit_mem_nextSteps mem).1)
    (fun key mem after ↦ (mem_nextSteps_seen mem).imp (done key · (Nat.lt_of_succ_le after)) id)
  refine ⟨?_, fun key mem ↦ ?_, fun key mem after ↦ done' key mem after⟩
  · exact alike.trans (alike_nextSteps (run state) fun next mem ↦ done _ mem (Nat.lt_succ_self count))
  · obtain old | after := later key mem
    · obtain old | ⟨same, -⟩ := mem_nextSteps_seen old
      · exact Or.inl old
      · exact Or.inr (same ▸ Nat.lt_succ_self count)
    · exact Or.inr ((Nat.lt_succ_self count).trans after)

section

variable (run : MatchState → List MatchState) (min : ℕ) (isLazy : Bool)

/-- The enumeration finds what the iterations find. -/
theorem enumerates_visit
    (remaining count : ℕ) (bound : count + remaining = cap) (state : MatchState)
    (seen : List (ℕ × MatchState)) (found : List MatchState)
    (done : ∀ key ∈ seen, count < key.1 →
      Done (fun count ↦ iterate run min isLazy (cap - count) count) found key) :
    Enumerates (fun count ↦ iterate run min isLazy (cap - count) count) count found seen
      (visit run min isLazy remaining count state seen)
      (iterate run min isLazy (cap - count) count state) := by
  induction remaining generalizing count state seen found with
  | zero =>
    obtain rfl : count = cap := bound
    rw [Nat.sub_self]
    exact ⟨.refl, fun key mem ↦ Or.inl mem,
      fun key mem after ↦ (done key mem after).mono (List.subset_append_left _ _)⟩
  | succ remaining ih =>
    have left : cap - count = remaining + 1 := by omega
    have left' : cap - (count + 1) = remaining := by omega
    have steps (found : List MatchState) (done : ∀ key ∈ seen, count < key.1 →
        Done (fun count ↦ iterate run min isLazy (cap - count) count) found key) :=
      @enumerates_nextSteps min _ run count state
        (fun count ↦ visit run min isLazy remaining count)
        (fun state seen found done ↦ ih (count + 1) (by omega) state seen found done) seen found done
    simp only [left'] at steps
    rw [left]
    unfold visit iterate
    cases isLazy with
    | true =>
      -- The state itself has been found before the steps.
      obtain ⟨alike, later, done'⟩ := steps (found ++ if min ≤ count then [state] else [])
        fun key mem after ↦ (done key mem after).mono (List.subset_append_left _ _)
      rw [List.append_assoc, List.append_assoc] at alike
      refine ⟨alike, later, fun key mem after ↦ ?_⟩
      have isDone := done' key mem after
      rwa [List.append_assoc] at isDone
    | false =>
      obtain ⟨alike, later, done'⟩ := steps found done
      refine ⟨?_, later, fun key mem after ↦ ?_⟩
      · have whole := alike.append fun _ ↦ (Agree.refl : Alike (if min ≤ count then [state] else []) _)
        rwa [List.append_assoc, List.append_assoc] at whole
      · have isDone := (done' key mem after).mono
          (List.subset_append_left _ (if min ≤ count then [state] else []))
        rwa [List.append_assoc] at isDone

theorem alike_visit (cap : ℕ)
    (state : MatchState) :
    Alike (visit run min isLazy cap 0 state []).1 (iterate run min isLazy cap 0 state) :=
  (enumerates_visit run min isLazy cap 0 (Nat.zero_add cap) state [] [] (List.forall_mem_nil _)).alike

end

/-- Iterations of bodies that agree where they are begun. -/
theorem alike_iterate {run' : MatchState → List MatchState}
    (bodies : ∀ count current, Visits run min cap start count current → count < cap →
      Alike (run current) (run' current)) {remaining count : ℕ} (bound : count + remaining = cap)
    {state : MatchState} (visits : Visits run min cap start count state) :
    Alike (iterate run min isLazy remaining count state) (iterate run' min isLazy remaining count state) := by
  induction remaining generalizing count state with
  | zero => exact .refl
  | succ remaining ih =>
    have more : count < cap := by omega
    have following : Alike
        ((run state).flatMap fun next ↦
          if next.pos = state.pos ∧ min ≤ count then [next]
          else iterate run min isLazy remaining (count + 1) next)
        ((run' state).flatMap fun next ↦
          if next.pos = state.pos ∧ min ≤ count then [next]
          else iterate run' min isLazy remaining (count + 1) next) := by
      refine Agree.trans (Until.agree (Until.of_forall fun next mem ↦ ?_))
        (Agree.flatMap (Agree.of_alike (bodies count state visits more)))
      split_ifs with trailing
      · exact .refl
      · exact ih (by omega) (visits.next more mem trailing)
    unfold iterate
    cases isLazy with
    | true => exact Agree.append .refl fun _ ↦ following
    | false => exact following.append fun _ ↦ .refl

theorem perform_congr
    {visit visit' : ℕ → MatchState → List (ℕ × MatchState) → List MatchState × List (ℕ × MatchState)}
    (same : ∀ count state, .visit count state ∈ work → visit count state = visit' count state)
    (seen : List (ℕ × MatchState)) : perform visit work seen = perform visit' work seen := by
  induction work generalizing seen with
  | nil => rfl
  | cons item work ih =>
    have later := ih fun count state mem ↦ same count state (List.mem_cons_of_mem _ mem)
    cases item with
    | emit state => rw [perform, perform, later]
    | visit count state => rw [perform, perform, same count state List.mem_cons_self, later]

/-- A visit puts its steps on the stack, and the state itself before or behind them. -/
theorem perform_visit {count : ℕ} (inside : count ≤ cap) (state : MatchState) (work : List Work)
    (seen : List (ℕ × MatchState)) :
    let steps := nextSteps min count state (if count < cap then run state else []) seen
    let self := if min ≤ count then [Work.emit state] else []
    perform (fun count ↦ visit run min isLazy (cap - count) count)
        ((if isLazy then self ++ steps.1 else steps.1 ++ self) ++ work) steps.2 =
      perform (fun count ↦ visit run min isLazy (cap - count) count) (.visit count state :: work) seen := by
  intro steps self
  have performSelf (seen : List (ℕ × MatchState)) :
      perform (fun count ↦ visit run min isLazy (cap - count) count) self seen =
        (if min ≤ count then [state] else [], seen) := by
    change perform _ (if min ≤ count then [Work.emit state] else []) seen = _
    split_ifs <;> rfl
  obtain rfl | more := Nat.eq_or_lt_of_le inside
  · have steps_eq : steps = ([], seen) := by
      change nextSteps min count state (if count < count then run state else []) seen = _
      rw [if_neg (Nat.lt_irrefl count)]
      rfl
    rw [perform_append, steps_eq, perform, Nat.sub_self, visit]
    cases isLazy with
    | true => simp only [if_pos, List.append_nil, performSelf]
    | false => simp only [Bool.false_eq_true, if_false, List.nil_append, performSelf]
  · have left : cap - count = cap - (count + 1) + 1 := by omega
    have steps_eq : steps = nextSteps min count state (run state) seen := by
      change nextSteps min count state (if count < cap then run state else []) seen = _
      rw [if_pos more]
    have performSteps (seen' : List (ℕ × MatchState)) :
        perform (fun count ↦ visit run min isLazy (cap - count) count) steps.1 seen' =
          perform (fun count' ↦ visit run min isLazy (cap - (count + 1)) count') steps.1 seen' := by
      refine perform_congr (fun count' state' mem ↦ ?_) seen'
      rw [steps_eq] at mem
      rw [(visit_mem_nextSteps mem).1]
    rw [perform_append, perform, left, visit, ← steps_eq]
    cases isLazy with
    | true => simp only [if_pos, perform_append, performSelf, performSteps]
    | false => simp only [Bool.false_eq_true, if_false, perform_append, performSelf, performSteps]

/-- Something holds of the states from which an enumeration runs its body, until it is full or gives up. -/
def EnumerateRuns (body : MatchState → Matches) (good : MatchState → Prop) (min cap : ℕ) (isLazy : Bool) :
    ℕ → List Work → List (ℕ × MatchState) → List MatchState → Prop
  | fuel + 1, .emit state :: work, seen, out =>
      (out ++ [state]).length < resultLimit →
        EnumerateRuns body good min cap isLazy fuel work seen (out ++ [state])
  | fuel + 1, .visit count state :: work, seen, out =>
      (count < cap → good state) ∧
        ∀ found, (if count < cap then body state else .ok [] : Matches) = .ok found →
          let steps := nextSteps min count state found seen
          let self := if min ≤ count then [Work.emit state] else []
          EnumerateRuns body good min cap isLazy fuel
            ((if isLazy then self ++ steps.1 else steps.1 ++ self) ++ work) steps.2 out
  | _, _, _, _ => True

/-- What the engine's enumeration yields if the bodies that it runs yield what they are to yield. -/
theorem enumerate_take {body : MatchState → Matches} {good : MatchState → Prop}
    (bodies : ∀ current, good current → ∀ found, body current = .ok found → found = run current) {fuel : ℕ}
    {seen : List (ℕ × MatchState)} {out list : List MatchState}
    (h : enumerate body min cap isLazy fuel work seen out = .ok list)
    (runs : EnumerateRuns body good min cap isLazy fuel work seen out)
    (counts : ∀ count current, .visit count current ∈ work → count ≤ cap) (room : out.length < resultLimit) :
    list = (out ++ (perform (fun count ↦ visit run min isLazy (cap - count) count) work seen).1).take
      resultLimit := by
  induction fuel generalizing work seen out with
  | zero =>
    cases work with
    | nil =>
      obtain rfl := Except.ok.inj h
      rw [perform, List.append_nil, List.take_of_length_le room.le]
    | cons => cases h
  | succ fuel ih =>
    cases work with
    | nil =>
      obtain rfl := Except.ok.inj h
      rw [perform, List.append_nil, List.take_of_length_le room.le]
    | cons item work =>
      have counts' : ∀ count current, .visit count current ∈ work → count ≤ cap :=
        fun count current mem ↦ counts count current (List.mem_cons_of_mem _ mem)
      cases item with
      | emit state =>
        unfold enumerate at h
        rw [perform, List.append_cons]
        have length : (out ++ [state]).length = out.length + 1 := List.length_append
        split_ifs at h with full
        · obtain rfl := Except.ok.inj h
          have exactly : (out ++ [state]).length = resultLimit := by omega
          rw [← exactly, List.take_left]
        · have more := Nat.lt_of_not_le full
          exact ih h (runs more) counts' more
      | visit count state =>
        unfold enumerate at h
        have inside := counts count state List.mem_cons_self
        obtain ⟨found, ran, h⟩ := Effect.ok_of_bind h
        have later := runs.2 found ran
        have isFound : found = if count < cap then run state else [] := by
          split_ifs at ran ⊢ with more
          · exact bodies state (runs.1 more) found ran
          · exact (Except.ok.inj ran).symm
        rw [← perform_visit inside state work seen, ← isFound]
        refine ih h later (fun count' current mem ↦ ?_) room
        obtain same | mem | mem := mem_pushed mem
        · cases same
        · obtain ⟨rfl, following, -⟩ := visit_mem_nextSteps mem
          rw [isFound] at following
          split_ifs at following with more
          · exact more
          · cases following
        · exact counts' count' current mem

end Iterations

end Pon.Sre
