import Pon.Sre.Candidates

/-!
# The engine and its limits

The engine cuts lists of candidates and of end states at a limit. Where none of the lists that it needs as
a whole is cut, and it stops within the others, it ends as without limits or gives up.
-/

namespace Pon.Sre

open Alternatives

/-- A list of alternatives is not cut, or the search stops before the cut. -/
def Uncut (stop : MatchState → Bool) (alternatives : List MatchState) : Prop :=
  alternatives.length ≤ resultLimit ∨ (alternatives.take resultLimit).any stop

variable {alternatives : List MatchState}

theorem Uncut.take_eq (uncut : Uncut (fun _ ↦ false) alternatives) :
    alternatives.take resultLimit = alternatives := by
  obtain short | stops := uncut
  · exact List.take_of_length_le short
  · rw [List.any_eq_true] at stops
    obtain ⟨_, _, stops⟩ := stops
    cases stops

theorem Uncut.sameUpTo {f : MatchState → List MatchState} {stop : MatchState → Bool}
    (uncut : Uncut (fun state ↦ (f state).any stop) alternatives) :
    SameUpTo stop ((alternatives.take resultLimit).flatMap f) (alternatives.flatMap f) := by
  obtain short | stops := uncut
  · rw [List.take_of_length_le short]
    rfl
  · exact SameUpTo.take_flatMap stops

/-- How many end states an execution may yield. -/
def quota (collectAll : Bool) : ℕ :=
  if collectAll then resultLimit else 1

section Threads

variable (table : CharTable) (subject : List Word) {bound : ℕ}

/-- The end states of what remains of the sequences, without limits. -/
def segmentEnds : List (Segment bound) → MatchState → List MatchState
  | [], state => [state]
  | segment :: rest, state =>
      (ends withoutLimits table subject segment.1 state).flatMap (segmentEnds rest)

def stackEnds (stack : List (Thread bound)) : List MatchState :=
  stack.flatMap fun thread ↦ segmentEnds table subject thread.segments thread.state

variable {table subject}

variable {segments : List (Segment bound)}

theorem segmentEnds_of_nextNode_none (h : nextNode segments = none) (state : MatchState) :
    segmentEnds table subject segments state = [state] := by
  induction segments with
  | nil => rfl
  | cons segment rest ih =>
    obtain ⟨nodes, _⟩ := segment
    cases nodes with
    | nil => exact (List.append_nil _).trans (ih h)
    | cons => cases h

variable {rest : List (Segment bound)}

section

variable {node : {node : Node // node.weight ≤ bound}} (h : nextNode segments = some (node, rest))
include h

theorem segmentEnds_of_nextNode (state : MatchState) :
    segmentEnds table subject segments state =
      (node.1.ends withoutLimits table subject state).flatMap (segmentEnds table subject rest) := by
  induction segments with
  | nil => cases h
  | cons segment later ih =>
    obtain ⟨nodes, _⟩ := segment
    cases nodes with
    | nil => exact (List.append_nil _).trans (ih h)
    | cons first nodes =>
      obtain ⟨rfl, rfl⟩ := Prod.mk.inj (Option.some.inj h)
      exact List.flatMap_assoc

end

section Follow

variable {run : (body : List Node) → weight body < bound → MatchState → Bool → Matches}
  {good : (body : List Node) → weight body < bound → MatchState → Bool → Prop}
  {stop : MatchState → Bool} {rest : List (Segment bound)}

/-- The executions of smaller bodies end as without limits, up to their quota. -/
def BodiesTaken (table : CharTable) (subject : List Word)
    (run : (body : List Node) → weight body < bound → MatchState → Bool → Matches)
    (good : (body : List Node) → weight body < bound → MatchState → Bool → Prop) : Prop :=
  ∀ body smaller state collectAll found, run body smaller state collectAll = .ok found →
    good body smaller state collectAll →
    found = (ends withoutLimits table subject body state).take (quota collectAll)

/-- A step at a node does not cut a list before the search stops, unless it gives up. The end states of the
body of a repeat are needed as a whole. -/
def StepWithin (table : CharTable) (subject : List Word)
    (run : (body : List Node) → weight body < bound → MatchState → Bool → Matches)
    (good : (body : List Node) → weight body < bound → MatchState → Bool → Prop) (stop : MatchState → Bool)
    (state : MatchState) : (node : Node) → node.weight ≤ bound → Prop
  | .repeat_ body min max kind, h =>
      let runBody (state : MatchState) := run body h state true
      let explored := if kind = .possessive then .greedy else kind
      RepeatRuns table subject runBody
        (fun current ↦ good body h current true ∧
          ∀ found, runBody current = .ok found →
            Uncut (fun _ ↦ false) (ends withoutLimits table subject body current))
        body state min (max.map Subtype.val) explored ∧
      (kind ≠ .possessive →
        ∀ candidates, repeatCandidates table subject runBody body state min (max.map Subtype.val) explored =
          .ok candidates →
          Uncut stop ((Node.repeat_ body min max kind).ends withoutLimits table subject state))
  | .assert positive width body, h =>
      width ≤ state.pos →
        good body h { state with pos := state.pos - width } true ∧
        (positive → ∀ found, run body h { state with pos := state.pos - width } true = .ok found →
          Uncut stop ((Node.assert positive width body).ends withoutLimits table subject state))
  | .atomic body, h => good body h state false
  | _, _ => True

/-- The threads that go on from these states. -/
def threadsAt (rest : List (Segment bound)) (states : List MatchState) : List (Thread bound) :=
  states.map fun state ↦ ⟨rest, state⟩

theorem stackEnds_threadsAt (states : List MatchState) :
    stackEnds table subject (threadsAt rest states) = states.flatMap (segmentEnds table subject rest) :=
  List.flatMap_map _ _ states

theorem threadsAt_ite {condition : Prop} [Decidable condition] (state : MatchState) :
    (if condition then [(⟨rest, state⟩ : Thread bound)] else []) =
      threadsAt rest (if condition then [state] else []) := by
  split_ifs <;> rfl

/-- The threads that go on from a node end where the node and the rest do. -/
def Follows (table : CharTable) (subject : List Word) (stop : MatchState → Bool)
    (rest : List (Segment bound)) (ends : List MatchState) (threads : List (Thread bound)) : Prop :=
  SameUpTo stop (stackEnds table subject threads) (ends.flatMap (segmentEnds table subject rest))

variable {states : List MatchState}

theorem follows_threadsAt : Follows table subject stop rest states (threadsAt rest states) :=
  congrArg (upTo stop) (stackEnds_threadsAt states)

/-- Alternatives may be cut where the search stops. -/
theorem follows_take
    (uncut : Uncut (fun following ↦ (segmentEnds table subject rest following).any stop) states) :
    Follows table subject stop rest states (threadsAt rest (states.take resultLimit)) :=
  (congrArg (upTo stop) (stackEnds_threadsAt _)).trans uncut.sameUpTo

variable {state : MatchState}

/-- A thread that goes into a sequence. -/
theorem follows_into {nodes : List Node} (h : weight nodes ≤ bound) :
    Follows table subject stop rest (ends withoutLimits table subject nodes state)
      [⟨⟨nodes, h⟩ :: rest, state⟩] :=
  congrArg (upTo stop) (List.append_nil _)

theorem Follows.append {ends ends' : List MatchState} {threads threads' : List (Thread bound)}
    (follows : Follows table subject stop rest ends threads)
    (later : Follows table subject stop rest ends' threads') :
    Follows table subject stop rest (ends ++ ends') (threads ++ threads') := by
  unfold Follows stackEnds at *
  rw [List.flatMap_append, List.flatMap_append]
  exact SameUpTo.append follows fun _ ↦ later

theorem follows_branches {branches : List (List Node)} (h : ∀ branch ∈ branches, weight branch ≤ bound) :
    Follows table subject stop rest (branchEnds withoutLimits table subject branches state)
      (branches.attach.map fun branch ↦ ⟨⟨branch.1, h branch.1 branch.2⟩ :: rest, state⟩) := by
  induction branches with
  | nil => rfl
  | cons branch branches ih =>
    rw [List.attach_cons, List.map_cons, List.map_map]
    exact (follows_into (h branch List.mem_cons_self)).append
      (ih fun branch mem ↦ h branch (List.mem_cons_of_mem _ mem))

theorem follow_follows (short : subject.length < usizeMax) (bodies : BodiesTaken table subject run good)
    {node : Node} {h : node.weight ≤ bound} {threads : List (Thread bound)}
    (followed : follow table subject run rest state node h = .ok threads)
    (within : StepWithin table subject run good
      (fun following ↦ (segmentEnds table subject rest following).any stop) state node h) :
    Follows table subject stop rest (node.ends withoutLimits table subject state) threads := by
  cases node with
  | literal value case | notLiteral value case | any all | at_ position | in_ set case =>
    obtain rfl := Except.ok.inj followed
    rw [threadsAt_ite]
    exact follows_threadsAt
  | mark index | groupRef group case =>
    obtain rfl := Except.ok.inj followed
    exact follows_threadsAt
  | groupRefExists group yes no =>
    obtain rfl := Except.ok.inj followed
    unfold Node.ends
    by_cases matched : groupIsMatched state group
    · rw [if_pos matched]
      simp only [matched, if_true]
      exact follows_into _
    · rw [if_neg matched]
      simp only [matched]
      exact follows_into _
  | branch branches =>
    obtain rfl := Except.ok.inj followed
    unfold Node.ends
    exact follows_branches fun _ mem ↦ (weight_le_branchesWeight mem).trans ((Nat.le_succ _).trans h)
  | repeat_ body min max kind =>
    obtain ⟨visited, demanded⟩ := within
    have runs : ∀ current, (good body h current true ∧ ∀ found, run body h current true = .ok found →
          Uncut (fun _ ↦ false) (ends withoutLimits table subject body current)) →
        ∀ found, run body h current true = .ok found →
          found = ends withoutLimits table subject body current :=
      fun current met found ran ↦ (bodies body h current true found ran met.1).trans (met.2 found ran).take_eq
    unfold follow at followed
    dsimp only at followed
    unfold Node.ends at demanded ⊢
    dsimp only at demanded ⊢
    split_ifs at followed with possessive
    · rw [if_pos possessive] at visited
      obtain ⟨candidates, found, followed⟩ := Effect.ok_of_bind followed
      obtain rfl := Except.ok.inj followed
      rw [repeatCandidates_take short runs visited found, List.head?_take,
        if_neg (by decide : ¬resultLimit = 0), if_pos possessive]
      exact follows_threadsAt
    · rw [if_neg possessive] at visited demanded
      obtain ⟨candidates, found, followed⟩ := Effect.ok_of_bind followed
      obtain rfl := Except.ok.inj followed
      have whole := demanded possessive candidates found
      rw [repeatCandidates_take short runs visited found]
      rw [if_neg possessive] at whole ⊢
      exact follows_take whole
  | assert positive width body =>
    unfold follow at followed
    dsimp only at followed
    by_cases behind : width ≤ state.pos
    · obtain ⟨inner, demanded⟩ := within behind
      rw [if_pos behind] at followed
      obtain ⟨found, ran, followed⟩ := Effect.ok_of_bind followed
      have isFound := bodies body h _ true found ran inner
      unfold Node.ends at demanded ⊢
      dsimp only at demanded ⊢
      rw [if_pos behind] at demanded ⊢
      cases positive with
      | true =>
        obtain rfl := Except.ok.inj followed
        rw [if_pos rfl] at demanded ⊢
        have taken := follows_take (demanded rfl found ran)
        rw [threadsAt, ← List.map_take, List.map_map] at taken
        rw [isFound]
        exact taken
      | false =>
        obtain rfl := Except.ok.inj followed
        rw [if_neg Bool.false_ne_true]
        have nothing : found = [] ↔
            ends withoutLimits table subject body { state with pos := state.pos - width } = [] := by
          rw [isFound, List.take_eq_nil_iff]
          exact or_iff_right (by decide)
        rw [threadsAt_ite]
        simp only [nothing]
        exact follows_threadsAt
    · unfold Node.ends
      dsimp only
      rw [if_neg behind] at followed ⊢
      cases positive with
      | true | false =>
        obtain rfl := Except.ok.inj followed
        exact follows_threadsAt
  | atomic body =>
    obtain ⟨found, ran, followed⟩ := Effect.ok_of_bind followed
    obtain rfl := Except.ok.inj followed
    have isFound := bodies body h state false found ran within
    have last : found.getLast? = (ends withoutLimits table subject body state).head? := by
      rw [isFound]
      cases ends withoutLimits table subject body state <;> rfl
    rw [last]
    unfold Node.ends
    exact follows_threadsAt

end Follow

section Run

variable {run : (body : List Node) → weight body < bound → MatchState → Bool → Matches}
  {good : (body : List Node) → weight body < bound → MatchState → Bool → Prop}

/-- No step of a run cuts a list before the search stops. -/
def RunWithin (table : CharTable) (subject : List Word)
    (run : (body : List Node) → weight body < bound → MatchState → Bool → Matches)
    (good : (body : List Node) → weight body < bound → MatchState → Bool → Prop) (stop : MatchState → Bool)
    (collectAll : Bool) : ℕ → List (Thread bound) → List MatchState → Prop
  | fuel + 1, thread :: stack, out =>
      out.any stop = false →
        match nextNode thread.segments with
        | none =>
            collectAll → (out ++ [thread.state]).length < resultLimit →
              RunWithin table subject run good stop collectAll fuel stack (out ++ [thread.state])
        | some (⟨node, inBound⟩, rest) =>
            StepWithin table subject run good (fun following ↦ (segmentEnds table subject rest following).any stop)
              thread.state node inBound ∧
            ∀ threads, follow table subject run rest thread.state node inBound = .ok threads →
              RunWithin table subject run good stop collectAll fuel (threads ++ stack) out
  | _, _, _ => True

variable {collectAll : Bool}

theorem full_iff {count : ℕ} :
    (!collectAll) = true ∨ resultLimit ≤ count + 1 ↔ quota collectAll ≤ count + 1 := by
  cases collectAll <;> simp [quota]

variable {stack : List (Thread bound)}

/-- A run keeps what it has yielded and does not exceed its quota. -/
theorem runThreads_extends {fuel : ℕ} {out list : List MatchState}
    (h : runThreads table subject run collectAll fuel stack out = .ok list)
    (room : out.length < quota collectAll) : out <+: list ∧ list.length ≤ quota collectAll := by
  induction fuel generalizing stack out with
  | zero =>
    cases stack with
    | nil =>
      obtain rfl := Except.ok.inj h
      exact ⟨List.prefix_refl out, room.le⟩
    | cons => cases h
  | succ fuel ih =>
    cases stack with
    | nil =>
      obtain rfl := Except.ok.inj h
      exact ⟨List.prefix_refl out, room.le⟩
    | cons thread stack =>
      unfold runThreads at h
      cases next : nextNode thread.segments with
      | none =>
        rw [next] at h
        dsimp only at h
        have length : (out ++ [thread.state]).length = out.length + 1 := List.length_append
        simp only [length, full_iff] at h
        split_ifs at h with full
        · obtain rfl := Except.ok.inj h
          exact ⟨List.prefix_append out _, length.le.trans room⟩
        · obtain ⟨kept, inQuota⟩ := ih h (length ▸ Nat.lt_of_not_le full)
          exact ⟨(List.prefix_append out _).trans kept, inQuota⟩
      | some node =>
        rw [next] at h
        obtain ⟨threads, -, h⟩ := Effect.ok_of_bind h
        exact ih h room

/-- Where no list is cut before the stop, a run yields what is left of the threads. -/
theorem runThreads_same (short : subject.length < usizeMax) (bodies : BodiesTaken table subject run good)
    {stop : MatchState → Bool} {fuel : ℕ} {out list : List MatchState}
    (h : runThreads table subject run collectAll fuel stack out = .ok list)
    (room : out.length < quota collectAll)
    (within : RunWithin table subject run good stop collectAll fuel stack out) :
    ∃ whole, SameUpTo stop whole (out ++ stackEnds table subject stack) ∧
      list = whole.take (quota collectAll) := by
  induction fuel generalizing stack out with
  | zero =>
    cases stack with
    | nil =>
      obtain rfl := Except.ok.inj h
      exact ⟨out, (congrArg (upTo stop) (List.append_nil out)).symm, (List.take_of_length_le room.le).symm⟩
    | cons => cases h
  | succ fuel ih =>
    cases stopped : out.any stop with
    | true =>
      -- Nothing that comes behind a stop matters.
      obtain ⟨⟨more, rfl⟩, inQuota⟩ := runThreads_extends h room
      exact ⟨out ++ more, (SameUpTo.append_right stopped).symm.trans (SameUpTo.append_right stopped),
        (List.take_of_length_le inQuota).symm⟩
    | false =>
      cases stack with
      | nil =>
        obtain rfl := Except.ok.inj h
        exact ⟨out, (congrArg (upTo stop) (List.append_nil out)).symm, (List.take_of_length_le room.le).symm⟩
      | cons thread stack =>
        have here := within stopped
        unfold runThreads at h
        cases next : nextNode thread.segments with
        | none =>
          rw [next] at h here
          dsimp only at h here
          have length : (out ++ [thread.state]).length = out.length + 1 := List.length_append
          have ends : stackEnds table subject (thread :: stack) =
              thread.state :: stackEnds table subject stack := by
            unfold stackEnds
            rw [List.flatMap_cons, segmentEnds_of_nextNode_none next]
            rfl
          rw [ends, List.append_cons]
          simp only [length, full_iff] at h
          split_ifs at h with full
          · obtain rfl := Except.ok.inj h
            refine ⟨_, rfl, ?_⟩
            have exactly : (out ++ [thread.state]).length = quota collectAll :=
              Nat.le_antisymm (length.le.trans room) (full.trans length.ge)
            rw [← exactly, List.take_left]
          · have more := Nat.lt_of_not_le full
            refine ih h (length ▸ more) ?_
            cases collectAll with
            | true => exact here rfl (length ▸ more)
            | false => exact absurd more (by simp [quota])
        | some node =>
          obtain ⟨node, rest⟩ := node
          rw [next] at h here
          obtain ⟨threads, followed, h⟩ := Effect.ok_of_bind h
          have follows : Follows table subject stop rest _ threads := follow_follows short bodies followed here.1
          obtain ⟨whole, same', isList⟩ := ih h room (here.2 threads followed)
          refine ⟨whole, same'.trans (SameUpTo.append rfl fun _ ↦ ?_), isList⟩
          unfold Follows stackEnds at follows
          unfold stackEnds
          rw [List.flatMap_append, List.flatMap_cons, segmentEnds_of_nextNode next]
          exact follows.append fun _ ↦ rfl

end Run

end Threads

/-- No list is cut before the search stops: in an execution and in those of the bodies that it runs. -/
def ExecuteWithin (table : CharTable) (subject : List Word) (stop : MatchState → Bool) (nodes : List Node)
    (start : MatchState) (collectAll : Bool) : Prop :=
  RunWithin table subject (fun body _ state all ↦ execute table subject body state all)
    (fun body (_ : weight body < weight nodes) state all ↦
      ExecuteWithin table subject (fun _ ↦ !all) body state all)
    stop collectAll stepLimit [⟨[⟨nodes, le_refl (weight nodes)⟩], start⟩] []
termination_by weight nodes

/-- An execution ends as without limits, up to its quota, if no list is cut before the stop. -/
theorem execute_same {table : CharTable} {subject : List Word} (short : subject.length < usizeMax)
    {nodes : List Node} {start : MatchState} {stop : MatchState → Bool} {collectAll : Bool}
    {list : List MatchState} (ran : execute table subject nodes start collectAll = .ok list)
    (within : ExecuteWithin table subject stop nodes start collectAll) :
    ∃ whole, SameUpTo stop whole (ends withoutLimits table subject nodes start) ∧
      list = whole.take (quota collectAll) := by
  rw [execute] at ran
  rw [ExecuteWithin] at within
  have bodies : BodiesTaken table subject
      (fun (body : List Node) (_ : weight body < weight nodes) state all ↦ execute table subject body state all)
      fun body _ state all ↦ ExecuteWithin table subject (fun _ ↦ !all) body state all := by
    intro body smaller state all found ran within
    obtain ⟨whole, same, rfl⟩ := execute_same short ran within
    cases all with
    | true => rw [same.eq (List.any_eq_false.mpr fun _ _ ↦ Bool.false_ne_true)]
    | false => exact same.take_one
  obtain ⟨whole, same, isList⟩ := runThreads_same short bodies ran (by cases collectAll <;> decide) within
  have ends_eq : stackEnds table subject [⟨[⟨nodes, le_refl (weight nodes)⟩], start⟩] =
      ends withoutLimits table subject nodes start := by
    change (ends withoutLimits table subject nodes start).flatMap (fun state ↦ [state]) ++ [] = _
    rw [List.append_nil, List.flatMap_singleton']
  rw [List.nil_append, ends_eq] at same
  exact ⟨whole, same, isList⟩
termination_by weight nodes

end Pon.Sre
