import Pon.Generator.Protocol

/-!
# Yields and awaits of async generators

The driver tells an async generator's own yield from a value of a delegate by one flag of the thread. A
delegation step arms it and the call of any body clears it. The two are told apart as long as the flag
is not armed at an own yield, that is, as long as the functions that the body has called did not end
with a delegation step. An `aclose` that throws its `GeneratorExit` first reports an ignored one only
when the body has received it.
-/

namespace Pon.Generator

variable {Gen Await Object : Type}

/-- A delegation step has returned a value and no body was called since. -/
def armed (log : List (Note Gen Await Object)) : Bool :=
  log.foldl (fun armed note ↦
    match note with
    | .called _ _ _ _ => false
    | .stepped _ (.returned _) => true
    | _ => armed) false

theorem armed_append (log : List (Note Gen Await Object)) (note : Note Gen Await Object) :
    armed (log ++ [note]) =
      match note with
      | .called _ _ _ _ => false
      | .stepped _ (.returned _) => true
      | _ => armed log := by
  simp only [armed, List.foldl_append, List.foldl_cons, List.foldl_nil]

/-- What no step changes. -/
structure Fixed (Gen Await : Type) where
  kind : Gen → GeneratorKind
  mode : Await → AwaitableMode
  agen : Await → Gen

def Machine.fixed (m : Machine Gen Await Object) : Fixed Gen Await where
  kind g := (m.generators g).kind
  mode a := (m.awaitables a).mode
  agen := m.agen

/-- The body has received a `GeneratorExit` after the awaitable was stepped. -/
def ExitReceived (exceptions : Exceptions Object) (log : List (Note Gen Await Object)) (a : Await)
    (g : Gen) : Prop := ∃ before after, log = before ++ .begun a :: after ∧
    ∃ entry sent exc, .delivered g entry sent (some exc) ∈ after ∧ exceptions.isGeneratorExit exc = true

/-- What a note says of an own yield of an async generator and of a value of its delegate, with what
was noted before it. -/
def ToldApart (exceptions : Exceptions Object) (fixed : Fixed Gen Await)
    (before : List (Note Gen Await Object)) : Note Gen Await Object → Prop
  | .ended g (.yielded value) outcome =>
    fixed.kind g = .asyncGenerator → outcome = .returned (.wrapped (.object value))
  | .ended _ (.delegated value) outcome => outcome = .returned value
  | .awaited a ending verdict =>
    (∀ value, verdict = .passthrough value ↔ ending = some (.delegated value)) ∧
      (fixed.mode a = .close → (verdict = .ignoredExit ↔
        (∃ value, ending = some (.yielded value)) ∧ ExitReceived exceptions before a (fixed.agen a))) ∧
      (fixed.mode a ≠ .close →
        (∀ value, verdict = .completed (.object value) ↔ ending = some (.yielded value)) ∧
        ((verdict.outcome exceptions).isRaised exceptions .stopIteration = true ↔
          ∃ value, ending = some (.yielded value)))
  | _ => True

def AllTold (exceptions : Exceptions Object) (fixed : Fixed Gen Await)
    (log : List (Note Gen Await Object)) : Prop :=
  ∀ before note, before ++ [note] <+: log → ToldApart exceptions fixed before note

/-- The own yields of async generators find the flag cleared. -/
def YieldsApart (m : Machine Gen Await Object) : Event Gen Await Object → Prop
  | .suspend _ _ =>
    match m.stack with
    | .body g _ _ :: _ => (m.generators g).kind = .asyncGenerator → armed m.log = false
    | _ => True
  | _ => True

/-- What is thrown into an `aclose` before its first step is a `GeneratorExit`. -/
def ClosesByExit (exceptions : Exceptions Object) (m : Machine Gen Await Object) :
    Event Gen Await Object → Prop
  | .call (.awaitStep a _ (some exc)) =>
    (m.awaitables a).mode = .close → (m.awaitables a).state = .start →
      exceptions.isGeneratorExit exc = true
  | _ => True

instance (m : Machine Gen Await Object) :
    (event : Event Gen Await Object) → Decidable (YieldsApart m event)
  | .suspend _ _ => by
    show Decidable (match m.stack with
      | .body g _ _ :: _ => (m.generators g).kind = .asyncGenerator → armed m.log = false
      | _ => True)
    exact match m.stack with
      | .body g _ _ :: _ =>
        inferInstanceAs (Decidable ((m.generators g).kind = .asyncGenerator → armed m.log = false))
      | [] | .closing _ :: _ | .awaiting _ :: _ => instDecidableTrue
  | .call _ | .interrupt _ | .enter | .consume | .setSlot _ _ | .delegate _ | .pass _ | .finish _ | .unwind _
  | .foreignReturn _ | .foreignRaise _ | .foreignMissing => instDecidableTrue

instance (exceptions : Exceptions Object) (m : Machine Gen Await Object) :
    (event : Event Gen Await Object) → Decidable (ClosesByExit exceptions m event)
  | .call (.awaitStep a _ (some exc)) =>
    inferInstanceAs (Decidable ((m.awaitables a).mode = .close → (m.awaitables a).state = .start →
      exceptions.isGeneratorExit exc = true))
  | .call (.awaitStep _ _ none) | .call (.send _ _) | .call (.throw _ _) | .call (.close _)
  | .call (.awaitClose _) | .interrupt _ | .enter | .consume | .setSlot _ _ | .delegate _ | .suspend _ _
  | .pass _ | .finish _ | .unwind _ | .foreignReturn _ | .foreignRaise _ | .foreignMissing => instDecidableTrue

/-! ## The notes -/

section Notes

variable {exceptions : Exceptions Object} {fixed : Fixed Gen Await}
  {log : List (Note Gen Await Object)} {note : Note Gen Await Object} {a : Await} {g : Gen}

theorem AllTold.append (h : AllTold exceptions fixed log) (hnote : ToldApart exceptions fixed log note) :
    AllTold exceptions fixed (log ++ [note]) := by
  intro before note' hbefore
  rcases List.prefix_concat_iff.mp hbefore with heq | hbefore
  · obtain ⟨rfl, hsingle⟩ := List.append_inj' heq rfl
    rw [List.singleton_inj.mp hsingle]
    exact hnote
  · exact h before note' hbefore

theorem ExitReceived.append (h : ExitReceived exceptions log a g) (notes : List (Note Gen Await Object)) :
    ExitReceived exceptions (log ++ notes) a g := by
  obtain ⟨before, after, rfl, entry, sent, exc, hmem, hexit⟩ := h
  exact ⟨before, after ++ notes, by simp, entry, sent, exc, List.mem_append_left notes hmem, hexit⟩

theorem exitReceived_of_begun (h : .begun a ∈ log) {exc : Object}
    (hexit : exceptions.isGeneratorExit exc = true) (entry : UInt32) (sent : Option Object) :
    ExitReceived exceptions (log ++ [.delivered g entry sent (some exc)]) a g := by
  obtain ⟨before, after, rfl⟩ := List.append_of_mem h
  exact ⟨before, after ++ [.delivered g entry sent (some exc)], by simp, entry, sent, exc,
    List.mem_append_right after (List.mem_singleton_self _), hexit⟩

theorem AllTold.of_mem (h : AllTold exceptions fixed log) (hmem : note ∈ log) :
    ∃ before, before <+: log ∧ ToldApart exceptions fixed before note := by
  obtain ⟨before, after, rfl⟩ := List.append_of_mem hmem
  exact ⟨before, List.prefix_append _ _, h before note (by simp)⟩

/-- The body has received the exception, or it is in the frame. -/
def ExitOwed (exceptions : Exceptions Object) (m : Machine Gen Await Object) (a : Await) : Prop :=
  ExitReceived exceptions m.log a (m.agen a) ∨
    .begun a ∈ m.log ∧ ∃ exc, (m.generators (m.agen a)).frame.thrownExc = some exc ∧
      exceptions.isGeneratorExit exc = true

variable {m m' : Machine Gen Await Object}

theorem ExitOwed.mono (h : ExitOwed exceptions m a) (hagen : m'.agen = m.agen)
    (hlog : ∃ notes, m'.log = m.log ++ notes)
    (hthrown : ∀ exc, (m.generators (m.agen a)).frame.thrownExc = some exc →
      (m'.generators (m.agen a)).frame.thrownExc = some exc) : ExitOwed exceptions m' a := by
  obtain ⟨notes, hlog⟩ := hlog
  unfold ExitOwed
  rw [hagen, hlog]
  rcases h with hreceived | ⟨hbegun, exc, hexc, hexit⟩
  · exact .inl (hreceived.append notes)
  · exact .inr ⟨List.mem_append_left notes hbegun, exc, hthrown exc hexc, hexit⟩

end Notes

/-! ## The invariant -/

section Invariant

variable {apart : Prop} {exceptions : Exceptions Object} {fixed : Fixed Gen Await}
  {m : Machine Gen Await Object} {g : Gen} {a : Await} {stack rest : List (Activity Gen Await Object)}
  {ending : Option (Ending Object)} {outcome : Outcome Object} {generator : PyGenerator Object}
  {activity : Activity Gen Await Object} {entry : UInt32} {value : Boxed Object}
  {sent thrown : Option Object} {phase : Phase Gen Object} {frame : GenFrame Object}
  {leaving : Ending Object} {flag : Bool}

/-- The invariant of the flag while the stack is being worked on. The notes are as they should be if
`apart` is promised of the run. -/
structure FlagOk (apart : Prop) (exceptions : Exceptions Object) (fixed : Fixed Gen Await)
    (m : Machine Gen Await Object) (stack : List (Activity Gen Await Object)) : Prop where
  same : m.fixed = fixed
  flag : m.delegationYield = armed m.log
  stepping : ∀ g entry delegate forward, .body g entry (.stepping delegate forward) ∈ stack →
    fixed.kind delegate ≠ .asyncGenerator
  exits : apart → ∀ a, fixed.mode a = .close →
    (m.awaitables a).state = .iter ∨ .awaiting a ∈ stack → ExitOwed exceptions m a
  told : apart → AllTold exceptions fixed m.log

/-- A body that is about to hand on a value has the flag armed. -/
def PassingOk (m : Machine Gen Await Object) : Prop :=
  match m.stack with
  | .body _ _ (.passing value) :: _ => m.delegationYield = true ∧ ∃ object, value = .object object
  | _ => True

structure FlagInv (apart : Prop) (exceptions : Exceptions Object) (fixed : Fixed Gen Await)
    (m : Machine Gen Await Object) : Prop where
  ok : FlagOk apart exceptions fixed m m.stack
  passing : PassingOk m

/-- Notes that neither set the flag nor clear it. -/
def IsQuiet : Note Gen Await Object → Prop
  | .called _ _ _ _ | .stepped _ (.returned _) => False
  | _ => True

theorem Machine.Initial.flagInv (h : m.Initial) (apart : Prop) :
    FlagInv apart exceptions m.fixed m where
  ok :=
    { same := rfl
      flag := by
        rw [h.delegationYield, h.log]
        rfl
      stepping := by simp [h.stack]
      exits := by simp [h.stack, (h.awaitables _).1]
      told := by simp [AllTold, h.log] }
  passing := by
    unfold PassingOk
    rw [h.stack]
    exact trivial

theorem FlagOk.note {note : Note Gen Await Object} (h : FlagOk apart exceptions fixed m stack)
    (hquiet : IsQuiet note) (htold : apart → ToldApart exceptions fixed m.log note) :
    FlagOk apart exceptions fixed (m.note note) stack := by
  refine { h with
    flag := h.flag.trans ?_
    exits := fun hapart a hmode hopen ↦ (h.exits hapart a hmode hopen).mono rfl ⟨_, rfl⟩ fun _ ↦ id
    told := fun hapart ↦ (h.told hapart).append (htold hapart) }
  rw [Machine.note, armed_append]
  cases note with
  | called => exact hquiet.elim
  | stepped g outcome =>
    cases outcome with
    | returned => exact hquiet.elim
    | raised => rfl
  | delivered | ended | closed | begun | awaited | answered => rfl

theorem FlagOk.restack {stack' : List (Activity Gen Await Object)}
    (h : FlagOk apart exceptions fixed m stack)
    (hstepping : ∀ g entry delegate forward, .body g entry (.stepping delegate forward) ∈ stack' →
      .body g entry (.stepping delegate forward) ∈ stack ∨ fixed.kind delegate ≠ .asyncGenerator)
    (hawaiting : ∀ a, .awaiting a ∈ stack' → .awaiting a ∈ stack) :
    FlagOk apart exceptions fixed m stack' :=
  { h with
    stepping := fun g entry delegate forward hmem ↦
      (hstepping g entry delegate forward hmem).elim (h.stepping g entry delegate forward) id
    exits := fun hapart a hmode hopen ↦ h.exits hapart a hmode (hopen.imp_right (hawaiting a)) }

theorem FlagOk.tail (h : FlagOk apart exceptions fixed m (activity :: stack)) :
    FlagOk apart exceptions fixed m stack :=
  h.restack (fun _ _ _ _ hmem ↦ .inl (List.mem_cons_of_mem _ hmem))
    fun _ hmem ↦ List.mem_cons_of_mem _ hmem

theorem FlagOk.body {entry : UInt32} {phase : Phase Gen Object}
    (h : FlagOk apart exceptions fixed m stack)
    (hphase : ∀ delegate forward, phase = .stepping delegate forward →
      fixed.kind delegate ≠ .asyncGenerator) :
    FlagOk apart exceptions fixed m (.body g entry phase :: stack) := by
  refine h.restack (fun g' entry' delegate forward hmem ↦ ?_) fun a hmem ↦ by simpa using hmem
  rcases List.mem_cons.mp hmem with heq | hmem
  · cases heq
    exact .inr (hphase delegate forward rfl)
  · exact .inl hmem

theorem FlagOk.closing (h : FlagOk apart exceptions fixed m stack) :
    FlagOk apart exceptions fixed m (.closing g :: stack) :=
  h.restack (fun _ _ _ _ hmem ↦ .inl (by simpa using hmem)) fun _ hmem ↦ by simpa using hmem

theorem FlagOk.stepped (h : FlagOk apart exceptions fixed m stack)
    (hobject : ∀ value, outcome = .returned value → ∃ object, value = .object object) :
    FlagInv apart exceptions fixed (m.stepped g entry stack outcome) := by
  cases outcome with
  | returned value =>
    have hbody : FlagOk apart exceptions fixed m (.body g entry (.passing value) :: stack) :=
      h.body nofun
    refine ⟨{ hbody with
      flag := (armed_append m.log (.stepped g (.returned value))).symm
      exits := fun hapart a hmode hopen ↦ (hbody.exits hapart a hmode hopen).mono rfl ⟨_, rfl⟩ fun _ ↦ id
      told := fun hapart ↦ (h.told hapart).append trivial }, rfl, hobject value rfl⟩
  | raised pending =>
    have hbody : FlagOk apart exceptions fixed m (.body g entry (.running true) :: stack) :=
      h.body nofun
    have hnoted : FlagOk apart exceptions fixed (m.note (.stepped g (.raised pending)))
        (.body g entry (.running true) :: stack) := hbody.note trivial fun _ ↦ trivial
    exact ⟨{ hnoted with }, trivial⟩

/-! ## Outcomes -/

/-- A value that is no box, unless it comes from an async generator. -/
def ObjectFrom (fixed : Fixed Gen Await) (g : Gen) (outcome : Outcome Object) : Prop :=
  fixed.kind g ≠ .asyncGenerator → ∀ value, outcome = .returned value → ∃ object, value = .object object

theorem ponGenClosed_object (h : (ponGenClosed exceptions outcome).2 = .returned value) :
    ∃ object, value = .object object := by
  unfold ponGenClosed at h
  split at h
  · exact absurd h nofun
  · split at h
    · exact ⟨_, (Outcome.returned.inj h).symm⟩
    · exact absurd h nofun

theorem verdict_object {mode : AwaitableMode}
    (h : (classifyAgenStep exceptions mode outcome).outcome exceptions = .returned value) :
    ∃ object, value = .object object := by
  unfold classifyAgenStep at h
  split at h
  · split at h <;> exact absurd h nofun
  · exact ⟨_, (Outcome.returned.inj h).symm⟩
  · split at h
    · split at h <;> exact absurd h nofun
    · split at h <;> exact absurd h nofun

/-- What an awaitable makes of what came back. -/
def AwaitedOk (exceptions : Exceptions Object) (fixed : Fixed Gen Await)
    (log : List (Note Gen Await Object)) (ending : Option (Ending Object)) (outcome : Outcome Object)
    (a : Await) : Prop := ToldApart exceptions fixed log
    (.awaited a ending (classifyAgenStep exceptions (fixed.mode a) outcome))

/-- An exception ends the await, or goes on through it, whatever the body did. -/
theorem awaitedOk_of_raised {log : List (Note Gen Await Object)} {pending : Pending Object}
    (hyielded : ∀ value, ending ≠ some (.yielded value))
    (hdelegated : ∀ value, ending ≠ some (.delegated value)) :
    AwaitedOk exceptions fixed log ending (.raised pending) a := by
  have hstop (hmode : fixed.mode a ≠ .close) :
      ((classifyAgenStep exceptions (fixed.mode a) (.raised pending)).outcome exceptions).isRaised
        exceptions .stopIteration = true ↔ ∃ value, ending = some (.yielded value) := by
    rw [classifyAgenStep_isRaised exceptions hmode]
    simp [hyielded]
  refine ⟨fun value ↦ ?_, fun hmode ↦ ?_, fun hmode ↦ ⟨fun value ↦ ?_, hstop hmode⟩⟩
  · simp only [classifyAgenStep, hdelegated, iff_false]
    split <;> split <;> simp
  · simp only [classifyAgenStep, hmode, if_true, hyielded, exists_false, false_and, iff_false]
    split <;> simp
  · simp only [classifyAgenStep, hmode, if_false, hyielded, iff_false]
    split <;> simp

/-- What a body hands back is noted rightly, and rightly read by the awaitable below it. -/
theorem leaves_told (log log' : List (Note Gen Await Object))
    (hleaves : Leaves exceptions generator phase frame leaving outcome)
    (hkind : generator.kind = fixed.kind g)
    (hown : ∀ value, leaving = .yielded value → fixed.kind g = .asyncGenerator → flag = false)
    (hpassed : ∀ value, phase = .passing value → flag = true ∧ ∃ object, value = .object object)
    (hagen : ∀ a, fixed.agen a = g → fixed.kind g = .asyncGenerator) :
    ToldApart exceptions fixed log (.ended g leaving (ponGenResumed generator.kind flag outcome)) ∧
      ∀ a, fixed.agen a = g → (fixed.mode a = .close → ExitReceived exceptions log' a (fixed.agen a)) →
        AwaitedOk exceptions fixed log' (some leaving) (ponGenResumed generator.kind flag outcome) a := by
  rw [hkind]
  cases hleaves with
  | @suspend state value hstate =>
    by_cases hasync : fixed.kind g = .asyncGenerator
    · have hresumed : ponGenResumed (fixed.kind g) flag (.returned (.object value)) =
          .returned (.wrapped (.object value)) := if_pos ⟨hasync, hown value rfl hasync⟩
      rw [hresumed]
      refine ⟨fun _ ↦ rfl, fun a _ hexit ↦ ?_⟩
      by_cases hmode : fixed.mode a = .close
      · simp [AwaitedOk, ToldApart, classifyAgenStep, hmode, hexit]
      · simp [AwaitedOk, ToldApart, classifyAgenStep, hmode, Verdict.outcome,
          isRaised_raiseStopIteration, eq_comm]
    · exact ⟨fun h ↦ absurd h hasync, fun a ha ↦ absurd (hagen a ha) hasync⟩
  | @pass state value hstate =>
    obtain ⟨hflag, object, rfl⟩ := hpassed value rfl
    have hresumed : ponGenResumed (fixed.kind g) flag (.returned (.object object)) =
        .returned (.object object) := if_neg fun h ↦ by simp [hflag] at h
    rw [hresumed]
    refine ⟨rfl, fun a _ _ ↦ ?_⟩
    simp [AwaitedOk, ToldApart, classifyAgenStep, Verdict.outcome, Outcome.isRaised, eq_comm]
  | finish retval => exact ⟨trivial, fun _ _ _ ↦ awaitedOk_of_raised (by simp) (by simp)⟩
  | unwind pending =>
    obtain ⟨pending', hraised⟩ := ponGenUnwind_raised exceptions generator.frame generator.kind pending
    rw [hraised]
    exact ⟨trivial, fun _ _ _ ↦ awaitedOk_of_raised (by simp) (by simp)⟩

theorem leaves_object (hleaves : Leaves exceptions generator phase frame leaving outcome)
    (hkind : generator.kind = fixed.kind g)
    (hpassed : ∀ value, phase = .passing value → flag = true ∧ ∃ object, value = .object object) :
    ObjectFrom fixed g (ponGenResumed generator.kind flag outcome) := by
  intro hne value hvalue
  have hresumed : ponGenResumed generator.kind flag outcome = outcome := by
    cases outcome with
    | raised pending => rfl
    | returned value => exact if_neg fun h ↦ hne (hkind ▸ h.1)
  rw [hresumed] at hvalue
  cases hleaves with
  | suspend => exact ⟨_, (Outcome.returned.inj hvalue).symm⟩
  | pass =>
    obtain ⟨-, object, rfl⟩ := hpassed _ rfl
    exact ⟨object, (Outcome.returned.inj hvalue).symm⟩
  | finish => exact absurd hvalue nofun
  | unwind pending =>
    obtain ⟨pending', hraised⟩ := ponGenUnwind_raised exceptions generator.frame generator.kind pending
    rw [hraised] at hvalue
    exact absurd hvalue nofun

/-! ## Generators -/

section

variable [DecidableEq Gen]

theorem fixed_setGenerator (hkind : generator.kind = (m.generators g).kind) :
    (m.setGenerator g generator).fixed = m.fixed := by
  have hkinds : (fun g' ↦ ((m.setGenerator g generator).generators g').kind) =
      fun g' ↦ (m.generators g').kind := by
    funext g'
    by_cases heq : g' = g
    · subst heq
      simpa [Machine.setGenerator] using hkind
    · simp [Machine.setGenerator, heq]
  simp only [Machine.fixed, hkinds]
  rfl

theorem FlagOk.setGenerator (h : FlagOk apart exceptions fixed m stack)
    (hkind : generator.kind = (m.generators g).kind)
    (hthrown : (m.generators g).frame.thrownExc = none ∨
      generator.frame.thrownExc = (m.generators g).frame.thrownExc) :
    FlagOk apart exceptions fixed (m.setGenerator g generator) stack := by
  refine { h with
    same := (fixed_setGenerator hkind).trans h.same
    exits := fun hapart a hmode hopen ↦ (h.exits hapart a hmode hopen).mono rfl
      ⟨[], (List.append_nil _).symm⟩ fun exc hexc ↦ ?_ }
  by_cases heq : m.agen a = g
  · rw [heq] at hexc ⊢
    have hsame := hthrown.resolve_left (by simp [hexc])
    simpa [Machine.setGenerator] using hsame.trans hexc
  · simpa [Machine.setGenerator, heq] using hexc

/-- The payload leaves the frame and is noted. -/
theorem FlagOk.deliver {frame : GenFrame Object} {entry : UInt32}
    (h : FlagOk apart exceptions fixed m stack) :
    FlagOk apart exceptions fixed ((m.setFrame g frame).note (.delivered g entry
      (m.generators g).frame.sentValue (m.generators g).frame.thrownExc)) stack := by
  have hsame : (m.setFrame g frame).fixed = m.fixed := fixed_setGenerator rfl
  have harmed := armed_append m.log
    (.delivered g entry (m.generators g).frame.sentValue (m.generators g).frame.thrownExc)
  refine { h with
    same := hsame.trans h.same
    flag := h.flag.trans harmed.symm
    exits := fun hapart a hmode hopen ↦ ?_
    told := fun hapart ↦ (h.told hapart).append trivial }
  rcases h.exits hapart a hmode hopen with hreceived | ⟨hbegun, exc, hexc, hexit⟩
  · exact .inl (hreceived.append _)
  · by_cases heq : m.agen a = g
    · subst heq
      refine .inl ?_
      rw [hexc]
      exact exitReceived_of_begun hbegun hexit _ _
    · have hframe : ((m.setFrame g frame).generators (m.agen a)).frame.thrownExc = some exc := by
        simpa [Machine.setFrame, Machine.setGenerator, heq] using hexc
      exact .inr ⟨List.mem_append_left _ hbegun, exc, hframe, hexit⟩

/-- A generator that does not run has no exception in its frame. -/
def Machine.Idle (m : Machine Gen Await Object) (g : Gen) : Prop :=
  (m.generators g).frame.resumeState ≠ resumeRunning → (m.generators g).frame.thrownExc = none

theorem Machine.Inv.idle (h : m.Inv) (hcalled : NotCalled g m.stack) : m.Idle g := by
  intro hrunning
  have hphase := (h.gens g).phase
  rw [activities_eq_nil (h.gens g) hrunning hcalled] at hphase
  exact hphase.2.2.1

/-- The body of the generator is called. -/
theorem FlagOk.called (h : FlagOk apart exceptions fixed (m.setGenerator g generator) stack) :
    FlagInv apart exceptions fixed { m.setGenerator g generator with
      delegationYield := false
      stack := .body g entry .called :: stack
      log := m.log ++ [.called g entry sent thrown] } := by
  have hbody : FlagOk apart exceptions fixed (m.setGenerator g generator)
      (.body g entry .called :: stack) := h.body nofun
  exact ⟨{ hbody with
    flag := (armed_append m.log (.called g entry sent thrown)).symm
    exits := fun hapart a hmode hopen ↦ (hbody.exits hapart a hmode hopen).mono rfl ⟨_, rfl⟩ fun _ ↦ id
    told := fun hapart ↦ (h.told hapart).append trivial }, trivial⟩

theorem FlagOk.takePayload {consumed : Bool}
    (h : FlagOk apart exceptions fixed m (.body g entry (.running consumed) :: rest))
    (hconsumed : consumed = true → (m.generators g).frame.thrownExc = none) :
    FlagOk apart exceptions fixed (m.takePayload g entry consumed) rest := by
  unfold Machine.takePayload
  cases consumed with
  | true => exact h.tail.setGenerator rfl (.inl (hconsumed rfl))
  | false => exact h.tail.deliver

theorem Machine.Idle.takePayload {consumed : Bool} {delegate : Gen} (h : m.Idle delegate) :
    (m.takePayload g entry consumed).Idle delegate := by
  by_cases heq : delegate = g
  · subst heq
    intro _
    cases consumed <;>
      simp [Machine.takePayload, Machine.note, Machine.setFrame, Machine.setGenerator, GenFrame.clear]
  · cases consumed <;>
      simpa [Machine.Idle, Machine.takePayload, Machine.note, Machine.setFrame, Machine.setGenerator,
        heq] using h

/-- A body that has consumed its payload has no exception in its frame. -/
theorem Machine.Inv.consumed (h : m.Inv)
    (hphase : phase.IsConsumed) (hstack : m.stack = .body g entry phase :: rest) :
    (m.generators g).frame.thrownExc = none := by
  have hgens := h.gens
  rw [hstack] at hgens
  exact ((phaseOk_consumed hphase).mp hgens.body.phase).2.2.1

theorem Machine.Inv.leaves_consumed (h : m.Inv)
    (hstack : m.stack = .body g entry phase :: rest)
    (hleaves : Leaves exceptions (m.generators g) phase frame leaving outcome) : phase.IsConsumed := by
  have hgens := h.gens
  rw [hstack] at hgens
  exact (hleaves.frame_ok hgens.body).1

end

/-! ## Awaitables -/

section

variable [DecidableEq Await]

theorem fixed_setAwaitable (state : AwaitableState) : (m.setAwaitable a state).fixed = m.fixed := by
  have hmodes : (fun a' ↦ ((m.setAwaitable a state).awaitables a').mode) =
      fun a' ↦ (m.awaitables a').mode := by
    funext a'
    by_cases heq : a' = a
    · subst heq
      simp [Machine.setAwaitable]
    · simp [Machine.setAwaitable, heq]
  simp only [Machine.fixed, hmodes, m.agen_setAwaitable a state]
  rfl

theorem ExitOwed.setAwaitable {a' : Await} {state : AwaitableState} (h : ExitOwed exceptions m a') :
    ExitOwed exceptions (m.setAwaitable a state) a' :=
  h.mono (m.agen_setAwaitable a state) ⟨[], (List.append_nil _).symm⟩ fun _ ↦ id

/-- An awaitable that stays open was open. -/
theorem FlagOk.setAwaitable {state : AwaitableState} (h : FlagOk apart exceptions fixed m stack)
    (hstate : state = .iter → (m.awaitables a).state = .iter) :
    FlagOk apart exceptions fixed (m.setAwaitable a state) stack := by
  refine { h with
    same := (fixed_setAwaitable state).trans h.same
    exits := fun hapart a' hmode hopen ↦ (h.exits hapart a' hmode ?_).setAwaitable }
  refine hopen.imp_left fun hiter ↦ ?_
  by_cases heq : a' = a
  · subst heq
    exact hstate (by simpa [Machine.setAwaitable] using hiter)
  · simpa [Machine.setAwaitable, heq] using hiter

/-- A step of an awaitable begins. -/
theorem FlagOk.await (h : FlagOk apart exceptions fixed m stack)
    (hexit : apart → fixed.mode a = .close → ExitOwed exceptions m a) :
    FlagOk apart exceptions fixed (m.setAwaitable a .iter) (.awaiting a :: stack) := by
  refine { h with
    same := (fixed_setAwaitable .iter).trans h.same
    stepping := fun g entry delegate forward hmem ↦
      h.stepping g entry delegate forward (by simpa using hmem)
    exits := fun hapart a' hmode hopen ↦ ?_ }
  by_cases heq : a' = a
  · subst heq
    exact (hexit hapart hmode).setAwaitable
  · refine (h.exits hapart a' hmode ?_).setAwaitable
    simpa [Machine.setAwaitable, heq] using hopen

end

/-! ## Returns -/

variable [DecidableEq Gen] [DecidableEq Await] [DecidableEq Object]

theorem FlagOk.reply_of_waitsFor (h : FlagOk apart exceptions fixed m stack)
    (hwaits : WaitsFor g stack) (hobject : ObjectFrom fixed g outcome) :
    FlagInv apart exceptions fixed (m.reply exceptions ending outcome stack) := by
  have hanswered : FlagOk apart exceptions fixed (m.note (.answered outcome)) stack :=
    h.note trivial fun _ ↦ trivial
  rcases stack with _ | ⟨activity, rest⟩
  · exact ⟨{ hanswered with }, trivial⟩
  · cases activity with
    | closing | awaiting => exact hwaits.elim
    | body g' entry phase =>
      cases phase with
      | passing => exact hwaits.elim
      | called | running | foreign => exact ⟨{ hanswered with }, trivial⟩
      | stepping delegate forward =>
        have hkind : fixed.kind delegate ≠ .asyncGenerator :=
          h.stepping g' entry delegate forward List.mem_cons_self
        obtain rfl : delegate = g := hwaits
        refine h.tail.stepped fun value hvalue ↦ ?_
        cases forward with
        | step | throw => exact hobject hkind value hvalue
        | close exc =>
          cases outcome with
          | returned => exact absurd hvalue nofun
          | raised => exact hobject hkind value hvalue

/-- The awaitable has been given the state that comes of what came back. -/
theorem FlagOk.reply_awaiting (hmode : (m.awaitables a).mode = fixed.mode a)
    (hset : FlagOk apart exceptions fixed (m.setAwaitable a
      ((classifyAgenStep exceptions (fixed.mode a) outcome).state (m.awaitables a).state)) stack)
    (hwaits : WaitsFor g stack)
    (hawaited : apart → AwaitedOk exceptions fixed m.log ending outcome a) :
    FlagInv apart exceptions fixed (m.reply exceptions ending outcome (.awaiting a :: stack)) := by
  rw [Machine.reply, hmode]
  have hnoted : FlagOk apart exceptions fixed
      ((m.setAwaitable a ((classifyAgenStep exceptions (fixed.mode a) outcome).state
          (m.awaitables a).state)).note
        (.awaited a ending (classifyAgenStep exceptions (fixed.mode a) outcome))) stack :=
    hset.note trivial hawaited
  have hsettled : FlagOk apart exceptions fixed
      (m.settle a ending (classifyAgenStep exceptions (fixed.mode a) outcome)) stack := by
    unfold Machine.settle
    simp only
    split
    · exact FlagOk.note (hnoted.setGenerator rfl (.inr rfl)) trivial fun _ ↦ trivial
    · exact hnoted
  exact hsettled.reply_of_waitsFor hwaits fun _ value hvalue ↦ verdict_object hvalue

theorem FlagOk.reply (h : FlagOk apart exceptions fixed m stack) (hbase : Base m.agen g stack)
    (hobject : ObjectFrom fixed g outcome)
    (hawaited : apart → ∀ a rest, stack = .awaiting a :: rest → m.agen a = g →
      AwaitedOk exceptions fixed m.log ending outcome a) :
    FlagInv apart exceptions fixed (m.reply exceptions ending outcome stack) := by
  rcases stack with _ | ⟨activity, rest⟩
  · exact h.reply_of_waitsFor (g := g) hbase hobject
  · cases activity with
    | body g' entry phase => exact h.reply_of_waitsFor (g := g) hbase hobject
    | closing g' =>
      obtain ⟨rfl, hwaits⟩ := hbase
      rw [Machine.reply]
      have hclosed : FlagOk apart exceptions fixed
          (if (ponGenClosed exceptions outcome).1 then m.setClosed g' else m) rest := by
        split
        · exact FlagOk.note (h.tail.setGenerator rfl (.inr rfl)) trivial fun _ ↦ trivial
        · exact h.tail
      exact hclosed.reply_of_waitsFor hwaits fun _ value hvalue ↦ ponGenClosed_object hvalue
    | awaiting a =>
      have hset (verdict : Verdict Object) : FlagOk apart exceptions fixed
          (m.setAwaitable a (verdict.state (m.awaitables a).state)) rest := by
        refine h.tail.setAwaitable fun hiter ↦ ?_
        cases verdict with
        | passthrough => exact hiter
        | completed | ignoredExit | closed | exhausted | raised => cases hiter
      exact FlagOk.reply_awaiting (congrArg (fun fixed ↦ fixed.mode a) h.same) (hset _) hbase.2
        fun hapart ↦ hawaited hapart a rest rfl hbase.1

/-! ## Calls -/

theorem raised_of_answers (h : ponGenResume exceptions generator sent thrown = .answers outcome) :
    ∃ pending, outcome = .raised pending := by
  unfold ponGenResume at h
  simp only at h
  split at h
  · exact ⟨_, (Resumption.answers.inj h).symm⟩
  · split at h
    · split at h
      · exact ⟨_, (Resumption.answers.inj h).symm⟩
      · split at h <;> exact ⟨_, (Resumption.answers.inj h).symm⟩
    · split at h
      · exact ⟨_, (Resumption.answers.inj h).symm⟩
      · cases h

section

variable (h : FlagOk apart exceptions fixed m m.stack) (hbase : Base m.agen g m.stack)
  (hidle : m.Idle g)
include h hbase

theorem FlagOk.raise {pending : Pending Object} :
    FlagInv apart exceptions fixed (m.reply exceptions none (.raised pending) m.stack) :=
  h.reply hbase (fun _ _ hvalue ↦ absurd hvalue nofun) fun _ _ _ _ _ ↦ awaitedOk_of_raised nofun nofun

include hidle

theorem FlagOk.resume : FlagInv apart exceptions fixed (m.resume exceptions g sent thrown) := by
  unfold Machine.resume
  split
  · rename_i outcome hanswers
    obtain ⟨pending, rfl⟩ := raised_of_answers hanswers
    exact h.raise hbase
  · rename_i generator hcalls
    obtain ⟨hrunning, -, rfl⟩ := calls_of_ponGenResume hcalls
    have hset : FlagOk apart exceptions fixed (m.setGenerator g { m.generators g with
        frame := { (m.generators g).frame with sentValue := sent, thrownExc := thrown } }) m.stack :=
      h.setGenerator rfl (.inl (hidle hrunning))
    exact hset.called

theorem FlagOk.throw {exc : Option Object} :
    FlagInv apart exceptions fixed (m.throw exceptions g exc) := by
  cases exc with
  | some exc => exact h.resume hbase hidle
  | none => exact h.raise hbase

end

theorem FlagOk.close (h : FlagOk apart exceptions fixed m m.stack) (hwaits : WaitsFor g m.stack)
    (hidle : m.Idle g) : FlagInv apart exceptions fixed (m.close exceptions g) := by
  unfold Machine.close
  split
  · rename_i outcome hrefuses
    refine h.reply_of_waitsFor hwaits fun _ value hvalue ↦ ?_
    unfold ponGenClose at hrefuses
    simp only at hrefuses
    split at hrefuses
    · rw [← Closing.refuses.inj hrefuses] at hvalue
      exact absurd hvalue nofun
    · split at hrefuses <;> cases hrefuses
  · rename_i generator hclosed
    obtain ⟨hrunning, rfl⟩ := closed_of_ponGenClose hclosed
    have hset (frame : GenFrame Object) : FlagOk apart exceptions fixed
        (m.setGenerator g { m.generators g with closed := true, frame }) m.stack :=
      h.setGenerator rfl (.inl (hidle hrunning))
    have hnoted (frame : GenFrame Object) : FlagOk apart exceptions fixed
        ((m.setGenerator g { m.generators g with closed := true, frame }).note (.closed g)) m.stack :=
      (hset frame).note trivial fun _ ↦ trivial
    exact (hnoted _).reply_of_waitsFor hwaits fun _ value hvalue ↦
      ⟨_, (Outcome.returned.inj hvalue).symm⟩
  · have hpushed : FlagOk apart exceptions fixed { m with stack := .closing g :: m.stack }
        (.closing g :: m.stack) := { h.closing with }
    exact hpushed.resume ⟨rfl, hwaits⟩ hidle

/-! ## Steps of awaitables -/

/-- The machine in which the step of an awaitable resumes its generator. -/
def Machine.beginAwait (m : Machine Gen Await Object) (a : Await) : Machine Gen Await Object :=
  { (m.setAwaitable a .iter).note (.begun a) with stack := .awaiting a :: m.stack }

omit [DecidableEq Gen] in
/-- The first step of an `aclose` throws a `GeneratorExit`. -/
theorem agenCall_close {awaitable : Awaitable Gen Object}
    (hmode : awaitable.mode = .close) (hstate : awaitable.state = .start)
    (hexit : ∀ exc, thrown = some exc → exceptions.isGeneratorExit exc = true) :
    ∃ exc, awaitable.agenCall exceptions sent thrown = .throw (some exc) ∧
      exceptions.isGeneratorExit exc = true := by
  cases thrown with
  | some exc => exact ⟨exc, rfl, hexit exc rfl⟩
  | none =>
    refine ⟨exceptions.make .generatorExit .empty, ?_, exceptions.make_isGeneratorExit _⟩
    simp [Awaitable.agenCall, hmode, hstate]

section

variable (h : FlagOk apart exceptions fixed m m.stack) (hwaits : WaitsFor (m.agen a) m.stack)
include h hwaits

/-- The generator is not called, and the awaitable is closed. -/
theorem FlagOk.raise_await {pending : Pending Object} : FlagInv apart exceptions fixed
    ((m.beginAwait a).reply exceptions none (.raised pending) (.awaiting a :: m.stack)) := by
  have hmode : ((m.beginAwait a).awaitables a).mode = fixed.mode a := by
    rw [← h.same]
    simp [Machine.beginAwait, Machine.note, Machine.setAwaitable, Machine.fixed]
  have hstate (state : AwaitableState) :
      (classifyAgenStep exceptions (fixed.mode a) (.raised pending)).state state = .closed := by
    simp only [classifyAgenStep]
    split <;> split <;> rfl
  have hclosed : FlagOk apart exceptions fixed ((m.setAwaitable a .iter).setAwaitable a .closed)
      m.stack := by
    have htwice : (m.setAwaitable a .iter).setAwaitable a .closed = m.setAwaitable a .closed := by
      simp [Machine.setAwaitable]
    rw [htwice]
    exact h.setAwaitable (by simp)
  have hbegun : FlagOk apart exceptions fixed
      (((m.setAwaitable a .iter).setAwaitable a .closed).note (.begun a)) m.stack :=
    hclosed.note trivial fun _ ↦ trivial
  refine FlagOk.reply_awaiting hmode ?_ hwaits fun _ ↦ awaitedOk_of_raised (by simp) (by simp)
  rw [hstate]
  exact { hbegun with }

variable (hidle : m.Idle (m.agen a))
include hidle

theorem FlagOk.resume_await
    (hexit : apart → fixed.mode a = .close → (m.awaitables a).state = .iter ∨
      ∃ exc, thrown = some exc ∧ exceptions.isGeneratorExit exc = true) :
    FlagInv apart exceptions fixed ((m.beginAwait a).resume exceptions (m.agen a) sent thrown) := by
  unfold Machine.resume
  split
  · rename_i outcome hanswers
    obtain ⟨pending, rfl⟩ := raised_of_answers hanswers
    exact h.raise_await hwaits
  · rename_i generator hcalls
    obtain ⟨hrunning, -, rfl⟩ := calls_of_ponGenResume hcalls
    have hbegun : FlagOk apart exceptions fixed (m.note (.begun a)) m.stack :=
      h.note trivial fun _ ↦ trivial
    have hset : FlagOk apart exceptions fixed
        ((m.note (.begun a)).setGenerator (m.agen a) { m.generators (m.agen a) with
          frame := { (m.generators (m.agen a)).frame with sentValue := sent, thrownExc := thrown } })
        m.stack := hbegun.setGenerator rfl (.inl (hidle hrunning))
    have hawait : FlagOk apart exceptions fixed
        (((m.beginAwait a).setGenerator (m.agen a) { m.generators (m.agen a) with
          frame := { (m.generators (m.agen a)).frame with sentValue := sent, thrownExc := thrown } }))
        (.awaiting a :: m.stack) := by
      refine { hset.await fun hapart hmode ↦ ?_ with }
      rcases hexit hapart hmode with hiter | ⟨exc, rfl, hexc⟩
      · exact hset.exits hapart a hmode (.inl hiter)
      · refine .inr ⟨List.mem_append_right _ (List.mem_singleton_self _), exc, ?_, hexc⟩
        simp [Machine.agen, Machine.setGenerator, Machine.note]
    exact hawait.called

theorem FlagOk.awaitStep (hexit : apart → ClosesByExit exceptions m (.call (.awaitStep a sent thrown))) :
    FlagInv apart exceptions fixed (m.awaitStep exceptions a sent thrown) := by
  have hmode : fixed.mode a = (m.awaitables a).mode := congrArg (fun fixed ↦ fixed.mode a) h.same.symm
  unfold Machine.awaitStep
  simp only
  split
  · exact h.reply_of_waitsFor hwaits fun _ _ hvalue ↦ absurd hvalue nofun
  · rename_i hopen
    have hthrows (hapart : apart) (hclose : fixed.mode a = .close) :
        (m.awaitables a).state = .iter ∨ ∃ exc,
          (m.awaitables a).agenCall exceptions sent thrown = .throw (some exc) ∧
            exceptions.isGeneratorExit exc = true := by
      cases hstate : (m.awaitables a).state with
      | closed => exact absurd hstate hopen
      | iter => exact .inl rfl
      | start =>
        refine .inr (agenCall_close (hmode ▸ hclose) hstate ?_)
        rintro exc rfl
        exact hexit hapart (hmode ▸ hclose) hstate
    cases hcall : (m.awaitables a).agenCall exceptions sent thrown with
    | send value =>
      refine h.resume_await hwaits hidle fun hapart hclose ↦ (hthrows hapart hclose).imp_right ?_
      rintro ⟨exc, hthrow, -⟩
      cases hcall.symm.trans hthrow
    | throw exc =>
      cases exc with
      | none => exact h.raise_await hwaits
      | some exc =>
        refine h.resume_await hwaits hidle fun hapart hclose ↦ (hthrows hapart hclose).imp_right ?_
        rintro ⟨exc', hthrow, hexit⟩
        cases hcall.symm.trans hthrow
        exact ⟨exc, rfl, hexit⟩

end

theorem FlagOk.call (h : FlagOk apart exceptions fixed m m.stack) (hinv : m.Inv)
    (hcode : m.codeRuns = true) {call : Call Gen Await Object} (hquiet : m.PollsQuiet (.call call))
    (hexit : apart → ClosesByExit exceptions m (.call call)) :
    FlagInv apart exceptions fixed (m.call exceptions call) := by
  have hidle (g : Gen) (hg : g ∈ m.target call) : m.Idle g := hinv.idle (notCalled_of_polls (hquiet g hg))
  cases call with
  | send g value => exact h.resume (waitsFor_of_codeRuns hcode g).base (hidle g rfl)
  | throw g exc => exact h.throw (waitsFor_of_codeRuns hcode g).base (hidle g rfl)
  | close g => exact h.close (waitsFor_of_codeRuns hcode g) (hidle g rfl)
  | awaitStep a sent thrown =>
    exact h.awaitStep (waitsFor_of_codeRuns hcode (m.agen a)) (hidle (m.agen a) rfl) hexit
  | awaitClose a =>
    have hset : FlagOk apart exceptions fixed (m.setAwaitable a .closed) m.stack := h.setAwaitable nofun
    exact hset.reply_of_waitsFor (waitsFor_of_codeRuns hcode (m.agen a)) fun _ value hvalue ↦
      ⟨_, (Outcome.returned.inj hvalue).symm⟩

/-! ## Moves -/

theorem FlagOk.delegateStep {consumed : Bool}
    {delegate : Option Gen}
    (h : FlagOk apart exceptions fixed m (.body g entry (.running consumed) :: rest))
    (hconsumed : consumed = true → (m.generators g).frame.thrownExc = none)
    (hkind : ∀ g ∈ delegate, (m.generators g).kind ≠ .asyncGenerator)
    (hidle : ∀ g ∈ delegate, m.Idle g) :
    FlagInv apart exceptions fixed (m.delegateStep exceptions g entry consumed rest delegate) := by
  have htaken := h.takePayload hconsumed
  unfold Machine.delegateStep
  simp only
  cases delegate with
  | none =>
    have hbody (forward : Forward Object) : FlagOk apart exceptions fixed
        (m.takePayload g entry consumed) (.body g entry (.foreign forward) :: rest) := htaken.body (by simp)
    exact ⟨{ hbody (m.forward exceptions g) with }, trivial⟩
  | some delegate =>
    have hdelegate : fixed.kind delegate ≠ .asyncGenerator := by
      rw [← h.same]
      exact hkind delegate rfl
    have hbody (forward : Forward Object) : FlagOk apart exceptions fixed
        (m.takePayload g entry consumed) (.body g entry (.stepping delegate forward) :: rest) := by
      refine htaken.body ?_
      rintro _ _ ⟨⟩
      exact hdelegate
    have hpushed (forward : Forward Object) : FlagOk apart exceptions fixed
        { m.takePayload g entry consumed with
          stack := .body g entry (.stepping delegate forward) :: rest }
        (.body g entry (.stepping delegate forward) :: rest) := { hbody forward with }
    have hidle' : (m.takePayload g entry consumed).Idle delegate := (hidle delegate rfl).takePayload
    cases m.forward exceptions g with
    | close exc => exact (hpushed _).close rfl hidle'
    | throw exc => exact (hpushed _).throw rfl hidle'
    | step =>
      simp only
      split
      · exact (hpushed _).resume rfl hidle'
      · exact (hpushed _).resume rfl hidle'

/-- What is promised of a run. -/
def PromisedApart (exceptions : Exceptions Object) (m : Machine Gen Await Object)
    (event : Event Gen Await Object) : Prop := YieldsApart m event ∧ ClosesByExit exceptions m event

instance (exceptions : Exceptions Object) (m : Machine Gen Await Object)
    (event : Event Gen Await Object) : Decidable (PromisedApart exceptions m event) :=
  inferInstanceAs (Decidable (_ ∧ _))

theorem FlagInv.move {m' : Machine Gen Await Object} {event : Event Gen Await Object}
    (h : FlagInv apart exceptions fixed m) (hinv : m.Inv)
    (hagen : ∀ a, fixed.kind (fixed.agen a) = .asyncGenerator) (hquiet : m.PollsQuiet event)
    (hmove : Move exceptions m event m') (hapart : apart → PromisedApart exceptions m event) :
    FlagInv apart exceptions fixed m' := by
  have hok := h.ok
  cases hmove with
  | call call hcode => exact hok.call hinv hcode hquiet fun hpromised ↦ (hapart hpromised).2
  | abandon hstack hevent =>
    rcases hevent with ⟨pending, rfl⟩ | hrunning | hfinished
    · exact hquiet.elim
    · exact absurd hrunning (hinv.called hstack).2.1
    · exact absurd hfinished (hinv.called hstack).2.2
  | @enter g entry rest hstack =>
    rw [hstack] at hok
    have hset : FlagOk apart exceptions fixed
        (m.setFrame g { (m.generators g).frame with resumeState := resumeRunning })
        (.body g (m.generators g).frame.resumeState (.running false) :: rest) :=
      FlagOk.body (hok.tail.setGenerator rfl (.inr rfl)) nofun
    exact ⟨{ hset with }, trivial⟩
  | @consume g entry rest hstack =>
    rw [hstack] at hok
    have hdelivered : FlagOk apart exceptions fixed
        ((m.setFrame g (ponGenConsumePayload exceptions (m.generators g).frame).1).note
          (.delivered g entry (m.generators g).frame.sentValue (m.generators g).frame.thrownExc))
        (.body g entry (.running true) :: rest) := FlagOk.body hok.tail.deliver nofun
    exact ⟨{ hdelivered with }, trivial⟩
  | @setSlot index value g entry phase rest hstack hphase =>
    exact ⟨hok.setGenerator rfl (.inr rfl), h.passing⟩
  | @delegate g entry consumed rest delegate hstack hkind =>
    rw [hstack] at hok
    refine hok.delegateStep (fun hconsumed ↦ ?_) hkind fun delegate hdelegate ↦
      hinv.idle (notCalled_of_polls (hquiet delegate hdelegate))
    subst hconsumed
    have hrunning : (Phase.running true : Phase Gen Object).IsConsumed := trivial
    exact hinv.consumed hrunning hstack
  | @leave _ g entry phase rest frame leaving outcome hstack hleaves hevent =>
    have hshape := hinv.shape
    have hpassing := h.passing
    have hthrown := hinv.consumed (hinv.leaves_consumed hstack hleaves) hstack
    rw [hstack] at hok hshape
    unfold PassingOk at hpassing
    rw [hstack] at hpassing
    have hset : FlagOk apart exceptions fixed (m.setFrame g frame) rest :=
      hok.tail.setGenerator rfl (.inl hthrown)
    have hupdate : (m.setFrame g frame).generators g = { m.generators g with frame } :=
      Function.update_self _ _ _
    have hkind : (m.generators g).kind = fixed.kind g := congrArg (fun fixed ↦ fixed.kind g) hok.same
    have hagens : m.agen = fixed.agen := congrArg Fixed.agen hok.same
    have hown (hpromised : apart) : ∀ value, leaving = .yielded value →
        fixed.kind g = .asyncGenerator → m.delegationYield = false := by
      intro value hvalue hasync
      obtain ⟨state, rfl⟩ := hevent value hvalue
      have hyields := (hapart hpromised).1
      unfold YieldsApart at hyields
      rw [hstack] at hyields
      rw [h.ok.flag]
      exact hyields (hkind.trans hasync)
    have hpassed : ∀ value, phase = .passing value →
        m.delegationYield = true ∧ ∃ object, value = .object object := by
      rintro value rfl
      exact hpassing
    have hobject : ObjectFrom fixed g
        (ponGenResumed (m.generators g).kind m.delegationYield outcome) :=
      leaves_object hleaves hkind hpassed
    have htold (hpromised : apart) (log : List (Note Gen Await Object)) :=
      leaves_told m.log log hleaves hkind (hown hpromised) hpassed fun a ha ↦ ha ▸ hagen a
    have hnoted : FlagOk apart exceptions fixed ((m.setFrame g frame).note
        (.ended g leaving (ponGenResumed (m.generators g).kind m.delegationYield outcome))) rest :=
      hset.note trivial fun hpromised ↦ (htold hpromised []).1
    unfold Machine.leave
    rw [hupdate]
    refine hnoted.reply hshape.1 hobject fun hpromised a rest' hrest ha ↦
      (htold hpromised _).2 a (hagens ▸ ha) fun hmode ↦ ?_
    have hwaiting : .awaiting a ∈ (.body g entry phase :: rest : List (Activity Gen Await Object)) := by
      simp [hrest]
    rcases hok.exits hpromised a hmode (.inr hwaiting) with hreceived | ⟨-, exc, hexc, -⟩
    · exact hagens ▸ hreceived.append _
    · have hagen : m.agen a = g := ha
      rw [hagen, hthrown] at hexc
      cases hexc
  | @foreign _ g entry forward rest outcome hstack houtcome =>
    rw [hstack] at hok
    refine hok.tail.stepped fun value hvalue ↦ ?_
    cases value with
    | object object => exact ⟨object, rfl⟩
    | wrapped value => exact absurd hvalue (houtcome value)

end Invariant

/-! ## Runs -/

section Runs

variable [DecidableEq Gen] [DecidableEq Await] [DecidableEq Object] {exceptions : Exceptions Object}
  {m : Machine Gen Await Object}

/-- The machines of runs in which own yields find the flag cleared and an `aclose` throws its exit
first. -/
def Machine.ReachedApart (exceptions : Exceptions Object) (m : Machine Gen Await Object) : Prop :=
  m.RunBy (fun m event ↦ m.PollsQuiet event ∧ PromisedApart exceptions m event) exceptions

/-- Every note of the machine tells yields and awaits apart. -/
def Machine.AllToldApart (exceptions : Exceptions Object) (m : Machine Gen Await Object) : Prop :=
  AllTold exceptions m.fixed m.log

/-- The flag follows the log in every run, and in guarded runs every note is as it should be. -/
theorem exists_flagInv {guard : Machine Gen Await Object → Event Gen Await Object → Prop}
    (apart : Prop) (hquiet : ∀ m event, guard m event → m.PollsQuiet event)
    (hguard : ∀ m event, guard m event → apart → PromisedApart exceptions m event)
    (h : m.RunBy guard exceptions) :
    ∃ fixed : Fixed Gen Await, (∀ a, fixed.kind (fixed.agen a) = .asyncGenerator) ∧
      FlagInv apart exceptions fixed m := by
  have hinv : (∃ fixed : Fixed Gen Await, (∀ a, fixed.kind (fixed.agen a) = .asyncGenerator) ∧
      FlagInv apart exceptions fixed m) ∧ m.Inv := by
    refine Transition.Reachable.invariant (fun m : Machine Gen Await Object ↦
      (∃ fixed : Fixed Gen Await, (∀ a, fixed.kind (fixed.agen a) = .asyncGenerator) ∧
        FlagInv apart exceptions fixed m) ∧ m.Inv) (fun m hinitial ↦ ?_) ?_ h
    · exact ⟨⟨m.fixed, fun a ↦ (hinitial.awaitables a).2, hinitial.flagInv apart⟩, hinitial.inv⟩
    · rintro m event m' ⟨⟨fixed, hagen, hflag⟩, hinv⟩ hguarded hstep
      have hmove := move_of_step hstep
      exact ⟨⟨fixed, hagen, hflag.move hinv hagen (hquiet m event hguarded) hmove
          (hguard m event hguarded)⟩, hinv.move (hquiet m event hguarded) hmove⟩
  exact hinv.1

theorem Machine.ReachedApart.allToldApart (h : m.ReachedApart exceptions) :
    m.AllToldApart exceptions := by
  obtain ⟨fixed, -, hflag⟩ :=
    exists_flagInv True (fun _ _ hguard ↦ hguard.1) (fun _ _ hguard _ ↦ hguard.2) h
  rw [Machine.AllToldApart, hflag.ok.same]
  exact hflag.ok.told trivial

theorem Machine.Reached.flag (h : m.Reached exceptions) : m.delegationYield = armed m.log := by
  obtain ⟨fixed, -, hflag⟩ := exists_flagInv False (fun _ _ ↦ id) (fun _ _ _ ↦ False.elim) h
  exact hflag.ok.flag

theorem mem_reply {note : Note Gen Await Object} {ending : Option (Ending Object)}
    {outcome : Outcome Object} {stack : List (Activity Gen Await Object)} (h : note ∈ m.log) :
    note ∈ (m.reply exceptions ending outcome stack).log := by
  have hextends : Extends exceptions m (m.reply exceptions ending outcome stack) := .reply
  obtain ⟨notes, hlog, -⟩ := hextends.log
  rw [hlog]
  exact List.mem_append_left notes h

/-- An own yield that finds the flag armed comes back as the value of a delegate would. -/
theorem not_allToldApart_of_armed {m' : Machine Gen Await Object} {event : Event Gen Await Object}
    (h : m.Reached exceptions) (hstep : m.step exceptions event = some m')
    (hyields : ¬YieldsApart m event) : ¬m'.AllToldApart exceptions := by
  unfold YieldsApart at hyields
  split at hyields
  · rename_i state value
    split at hyields
    · rename_i g entry phase rest hstack
      simp only [Classical.not_imp, Bool.not_eq_false] at hyields
      obtain ⟨hkind, harmed⟩ := hyields
      have hflag : m.delegationYield = true := h.flag.trans harmed
      have hextends := Extends.move h.inv (move_of_step hstep)
      unfold Machine.step at hstep
      rw [hstack] at hstep
      cases phase with
      | called | stepping | foreign | passing => cases hstep
      | running consumed =>
        cases consumed with
        | false => cases hstep
        | true =>
          simp only at hstep
          split at hstep
          · obtain rfl := Option.some.inj hstep
            have hupdate : (m.setFrame g { (m.generators g).frame with resumeState := state }).generators
                g = { m.generators g with
                  frame := { (m.generators g).frame with resumeState := state } } :=
              Function.update_self _ _ _
            have hset : ((m.setFrame g { (m.generators g).frame with resumeState := state }).generators
                g).kind = .asyncGenerator := (congrArg PyGenerator.kind hupdate).trans hkind
            have hresumed : ponGenResumed .asyncGenerator m.delegationYield
                (.returned (.object value)) = .returned (.object value) :=
              if_neg fun hcleared ↦ by simp [hflag] at hcleared
            intro htold
            have hmem : .ended g (.yielded value) (.returned (.object value)) ∈
                ((m.setFrame g { (m.generators g).frame with resumeState := state }).leave exceptions g
                  rest (.yielded value) (.returned (.object value))).log := by
              unfold Machine.leave
              rw [hset]
              refine mem_reply (List.mem_append_right _ ?_)
              exact List.mem_singleton.mpr (congrArg _ hresumed.symm)
            obtain ⟨_, -, hended⟩ := htold.of_mem hmem
            exact absurd (hended ((hextends.kind g).trans hkind)) (by simp)
          · cases hstep
    · exact (hyields trivial).elim
  · exact (hyields trivial).elim

/-- Own yields and values of delegates are told apart in the runs whose own yields find the flag
cleared, and the first own yield that does not is taken for the value of a delegate. -/
theorem async_yields_told_apart (exceptions : Exceptions Object) (m : Machine Gen Await Object) :
    (m.ReachedApart exceptions → m.AllToldApart exceptions) ∧
      (m.Reached exceptions → ∀ event m', m.step exceptions event = some m' →
        ¬YieldsApart m event → ¬m'.AllToldApart exceptions) :=
  ⟨fun h ↦ h.allToldApart, fun h _ _ ↦ not_allToldApart_of_armed h⟩

/-- An async generator awaits in one step, yields in the next and yields again when it is closed. -/
def awaitEvents : List (Event ℕ ℕ Sample) :=
  [.call (.awaitStep 0 none none), .enter, .consume, .delegate none, .foreignReturn (.number 7),
    .pass 1, .call (.awaitStep 0 none none), .enter, .consume, .suspend 2 (.number 5),
    .call (.awaitStep 1 none none), .enter, .consume, .suspend 3 (.number 6)]

theorem async_yields_told_apart_await : ∃ m : Machine ℕ ℕ Sample, m.AllToldApart sampleExceptions ∧
    .awaited 0 (some (.delegated (.object (.number 7)))) (.passthrough (.object (.number 7))) ∈ m.log ∧
    .awaited 0 (some (.yielded (.number 5))) (.completed (.object (.number 5))) ∈ m.log ∧
    .awaited 1 (some (.yielded (.number 6))) .ignoredExit ∈ m.log := by
  have hfinal : (runSample (fun m event ↦
      m.PollsQuiet event ∧ PromisedApart sampleExceptions m event) awaitEvents).map (fun m ↦
        (decide (.awaited 0 (some (.delegated (.object (.number 7))))
            (.passthrough (.object (.number 7))) ∈ m.log),
          decide (.awaited 0 (some (.yielded (.number 5))) (.completed (.object (.number 5))) ∈ m.log),
          decide (.awaited 1 (some (.yielded (.number 6))) .ignoredExit ∈ m.log))) =
        some (true, true, true) := by decide
  obtain ⟨m, hrun, hfinal⟩ := Option.map_eq_some_iff.mp hfinal
  rw [Prod.mk.injEq, Prod.mk.injEq, decide_eq_true_eq, decide_eq_true_eq, decide_eq_true_eq] at hfinal
  have hreached : m.ReachedApart sampleExceptions :=
    runBy_of_runSample (fun _ _ ↦ of_decide_eq_true) hrun
  exact ⟨m, (async_yields_told_apart sampleExceptions m).1 hreached, hfinal⟩

/-- A step of an async generator drives a generator with a delegate and then yields. -/
def nestedEvents : List (Event ℕ ℕ Sample) :=
  [.call (.awaitStep 0 none none), .enter, .consume, .call (.send 1 none), .enter, .consume,
    .delegate none, .foreignReturn (.number 7), .pass 1, .suspend 1 (.number 5)]

/-- A `ValueError` is thrown into an `aclose` that was not stepped, and the body yields. -/
def closeThrowEvents : List (Event ℕ ℕ Sample) :=
  [.call (.awaitStep 0 none none), .enter, .consume, .suspend 1 (.number 4),
    .call (.awaitStep 1 none (some (.error .valueError))), .enter, .consume, .suspend 2 (.number 5)]

/-- The note is no throw of a `GeneratorExit`. -/
def Note.notExit : Note ℕ ℕ Sample → Bool
  | .delivered _ _ _ (some exc) => !sampleExceptions.isGeneratorExit exc
  | _ => true

/-- The yield is handed on as if a delegate had suspended, and an exit that was never thrown counts as
ignored. -/
theorem nested_delegation_not_told_apart :
    (∃ m : Machine ℕ ℕ Sample, m.Reached sampleExceptions ∧
      .ended 0 (.yielded (.number 5)) (.returned (.object (.number 5))) ∈ m.log ∧
      .awaited 0 (some (.yielded (.number 5))) (.passthrough (.object (.number 5))) ∈ m.log ∧
      ¬m.AllToldApart sampleExceptions) ∧
    ∃ m : Machine ℕ ℕ Sample, m.Reached sampleExceptions ∧
      .awaited 1 (some (.yielded (.number 5))) .ignoredExit ∈ m.log ∧
      ¬m.AllToldApart sampleExceptions := by
  constructor
  · have hfinal : (runSample (fun m event ↦ m.PollsQuiet event) nestedEvents).map (fun m ↦
        (decide (.ended 0 (.yielded (.number 5)) (.returned (.object (.number 5))) ∈ m.log),
          decide (.awaited 0 (some (.yielded (.number 5)))
            (.passthrough (.object (.number 5))) ∈ m.log),
          decide ((m.generators 0).kind = .asyncGenerator))) = some (true, true, true) := by
      decide
    obtain ⟨m, hrun, hfinal⟩ := Option.map_eq_some_iff.mp hfinal
    rw [Prod.mk.injEq, Prod.mk.injEq, decide_eq_true_eq, decide_eq_true_eq, decide_eq_true_eq] at hfinal
    obtain ⟨hended, hawaited, hkind⟩ := hfinal
    refine ⟨m, reached_of_runSample hrun, hended, hawaited, fun htold ↦ ?_⟩
    obtain ⟨_, -, hyielded⟩ := htold.of_mem hended
    exact absurd (hyielded hkind) (by simp)
  · have hfinal : (runSample (fun m event ↦ m.PollsQuiet event) closeThrowEvents).map (fun m ↦
        (decide (.awaited 1 (some (.yielded (.number 5))) .ignoredExit ∈ m.log),
          decide ((m.awaitables 1).mode = .close),
          m.log.all Note.notExit)) = some (true, true, true) := by decide
    obtain ⟨m, hrun, hfinal⟩ := Option.map_eq_some_iff.mp hfinal
    rw [Prod.mk.injEq, Prod.mk.injEq, decide_eq_true_eq, decide_eq_true_eq] at hfinal
    obtain ⟨hawaited, hmode, hnotes⟩ := hfinal
    refine ⟨m, reached_of_runSample hrun, hawaited, fun htold ↦ ?_⟩
    obtain ⟨log, hbefore, -, hclose, -⟩ := htold.of_mem hawaited
    obtain ⟨-, before, after, rfl, entry, sent, exc, hmem, hexit⟩ := (hclose hmode).mp rfl
    have hnever := List.all_eq_true.mp hnotes _
      (hbefore.mem (List.mem_append_right before (List.mem_cons_of_mem _ hmem)))
    simp [Note.notExit, hexit] at hnever

end Runs

end Pon.Generator
