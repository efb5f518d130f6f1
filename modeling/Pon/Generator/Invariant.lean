import Pon.Generator.Machine
import Pon.Lib.Transition

/-!
# The invariant of the generators

A generator's state, its flag, the two payload fields and its slots are written at different moments by
the driver and by the body. What they are between the steps is decided by the one activation that may
be on the stack, and by the payloads noted so far.
-/

namespace Pon.Generator

variable {Gen Await Object : Type}

section Log

variable [DecidableEq Gen] (g : Gen)

/-- The activations of a generator on a stack. -/
def activities (stack : List (Activity Gen Await Object)) : List (UInt32 × Phase Gen Object) :=
  stack.filterMap fun activity ↦
    match activity with
    | .body g' entry phase => if g' = g then some (entry, phase) else none
    | _ => none

/-- The payloads that the body was called with, each with the state of the suspension point. -/
def accepted (log : List (Note Gen Await Object)) :
    List (UInt32 × Option Object × Option Object) :=
  log.filterMap fun note ↦
    match note with
    | .called g' entry sent thrown => if g' = g then some (entry, sent, thrown) else none
    | _ => none

/-- The payloads that the body consumed. -/
def delivered (log : List (Note Gen Await Object)) :
    List (UInt32 × Option Object × Option Object) :=
  log.filterMap fun note ↦
    match note with
    | .delivered g' entry sent thrown => if g' = g then some (entry, sent, thrown) else none
    | _ => none

variable {g} {g' : Gen} {stack : List (Activity Gen Await Object)} {log : List (Note Gen Await Object)}

@[simp]
theorem activities_body (entry : UInt32) (phase : Phase Gen Object) :
    activities g (.body g entry phase :: stack) = (entry, phase) :: activities g stack := by
  simp [activities]

theorem activities_body_ne (h : g' ≠ g) (entry : UInt32) (phase : Phase Gen Object) :
    activities g (.body g' entry phase :: stack) = activities g stack := by
  simp [activities, h]

theorem accepted_append (note : Note Gen Await Object) :
    accepted g (log ++ [note]) = accepted g log ++ accepted g [note] := List.filterMap_append

theorem delivered_append (note : Note Gen Await Object) :
    delivered g (log ++ [note]) = delivered g log ++ delivered g [note] := List.filterMap_append

/-- The notes of other generators, and notes that are not of payloads. -/
def OtherNote (g : Gen) : Note Gen Await Object → Prop
  | .called g' _ _ _ | .delivered g' _ _ _ => g' ≠ g
  | _ => True

variable {note : Note Gen Await Object}

theorem accepted_other (h : OtherNote g note) : accepted g (log ++ [note]) = accepted g log := by
  rw [accepted_append]
  cases note <;> simp_all [accepted, OtherNote]

theorem delivered_other (h : OtherNote g note) : delivered g (log ++ [note]) = delivered g log := by
  rw [delivered_append]
  cases note <;> simp_all [delivered, OtherNote]

end Log

/-- What the frame and the payloads are while the generator has these activations. -/
def PhaseOk (frame : GenFrame Object) (accepted delivered : List (UInt32 × Option Object × Option Object)) :
    List (UInt32 × Phase Gen Object) → Prop
  | [] =>
    frame.resumeState ≠ resumeRunning ∧ frame.sentValue = none ∧ frame.thrownExc = none ∧
      accepted = delivered
  | [(entry, .called)] =>
    frame.resumeState = entry ∧ entry ≠ resumeRunning ∧ entry ≠ resumeFinished ∧
      accepted = delivered ++ [(entry, frame.sentValue, frame.thrownExc)]
  | [(entry, .running false)] =>
    frame.resumeState = resumeRunning ∧
      accepted = delivered ++ [(entry, frame.sentValue, frame.thrownExc)]
  | [(_, .running true)] | [(_, .stepping _ _)] | [(_, .foreign _)] | [(_, .passing _)] =>
    frame.resumeState = resumeRunning ∧ frame.sentValue = none ∧ frame.thrownExc = none ∧
      accepted = delivered
  | _ :: _ :: _ => False

structure GenOk (generator : PyGenerator Object) (activities : List (UInt32 × Phase Gen Object))
    (accepted delivered : List (UInt32 × Option Object × Option Object)) : Prop where
  closed : generator.closed = true → generator.frame.resumeState = resumeFinished
  empty : generator.frame.resumeState = resumeFinished → generator.frame.Empty
  single : generator.frame.sentValue = none ∨ generator.frame.thrownExc = none
  phase : PhaseOk generator.frame accepted delivered activities

theorem resumeRunning_ne_resumeFinished : resumeRunning ≠ resumeFinished := by decide

section GenOk

variable {generator : PyGenerator Object} {entry : UInt32} {phase : Phase Gen Object}
  {rest : List (UInt32 × Phase Gen Object)}
  {accepted delivered : List (UInt32 × Option Object × Option Object)}

/-- At most one activation. -/
theorem GenOk.rest_eq_nil (h : GenOk generator ((entry, phase) :: rest) accepted delivered) :
    rest = [] := by
  have hphase := h.phase
  cases rest with
  | nil => rfl
  | cons => simp [PhaseOk] at hphase

/-- The phases in which the payload is consumed. -/
def Phase.IsConsumed : Phase Gen Object → Prop
  | .called | .running false => False
  | _ => True

variable {frame : GenFrame Object}

theorem phaseOk_consumed (hphase : phase.IsConsumed) :
    PhaseOk frame accepted delivered [(entry, phase)] ↔
      frame.resumeState = resumeRunning ∧ frame.sentValue = none ∧ frame.thrownExc = none ∧
        accepted = delivered := by
  cases phase with
  | called => exact hphase.elim
  | running consumed =>
    cases consumed with
    | false => exact hphase.elim
    | true => exact Iff.rfl
  | stepping | foreign | passing => exact Iff.rfl

theorem GenOk.rephase {phase' : Phase Gen Object} (hphase : phase.IsConsumed)
    (hphase' : phase'.IsConsumed)
    (h : GenOk generator [(entry, phase)] accepted delivered) :
    GenOk generator [(entry, phase')] accepted delivered :=
  { h with phase := (phaseOk_consumed hphase').mpr ((phaseOk_consumed hphase).mp h.phase) }

section

variable (h : GenOk generator [(entry, phase)] accepted delivered)
include h

theorem GenOk.not_finished :
    generator.frame.resumeState ≠ resumeFinished := by
  have hphase := h.phase
  cases phase with
  | called =>
    rw [hphase.1]
    exact hphase.2.2.1
  | running consumed =>
    cases consumed <;>
    · rw [hphase.1]
      exact resumeRunning_ne_resumeFinished
  | stepping | foreign | passing =>
    rw [hphase.1]
    exact resumeRunning_ne_resumeFinished

theorem GenOk.setSlots (slots : List (Option Object)) :
    GenOk { generator with frame := { generator.frame with slots } } [(entry, phase)] accepted
      delivered := by
  refine { h with empty := fun hfinished ↦ absurd hfinished h.not_finished, phase := ?_ }
  have hphase := h.phase
  cases phase with
  | running consumed => cases consumed <;> exact hphase
  | called | stepping | foreign | passing => exact hphase

end

/-- A body that leaves has left the frame in this state. -/
theorem GenOk.leave (hphase : phase.IsConsumed)
    (h : GenOk generator [(entry, phase)] accepted delivered)
    (hrunning : frame.resumeState ≠ resumeRunning)
    (hempty : frame.resumeState = resumeFinished → frame.Empty) (hsent : frame.sentValue = none)
    (hthrown : frame.thrownExc = none) :
    GenOk { generator with frame } ([] : List (UInt32 × Phase Gen Object)) accepted delivered where
  closed := by
    intro hclosed
    have hfinished := h.closed hclosed
    rw [((phaseOk_consumed hphase).mp h.phase).1] at hfinished
    exact absurd hfinished resumeRunning_ne_resumeFinished
  empty := hempty
  single := .inl hsent
  phase := ⟨hrunning, hsent, hthrown, ((phaseOk_consumed hphase).mp h.phase).2.2.2⟩

end GenOk

/-- Code or a delegation step that waits for the generator. -/
def WaitsFor (g : Gen) : List (Activity Gen Await Object) → Prop
  | [] | .body _ _ .called :: _ | .body _ _ (.running _) :: _ | .body _ _ (.foreign _) :: _ => True
  | .body _ _ (.stepping delegate _) :: _ => delegate = g
  | _ => False

/-- What is below the body of the generator. -/
def Base (agen : Await → Gen) (g : Gen) : List (Activity Gen Await Object) → Prop
  | .closing g' :: rest => g' = g ∧ WaitsFor g rest
  | .awaiting a :: rest => agen a = g ∧ WaitsFor g rest
  | stack => WaitsFor g stack

def Shape (agen : Await → Gen) : List (Activity Gen Await Object) → Prop
  | [] => True
  | .body g _ _ :: rest => Base agen g rest ∧ Shape agen rest
  | .closing _ :: rest | .awaiting _ :: rest => Shape agen rest

/-- A helper does not stay on top. -/
def Settled : List (Activity Gen Await Object) → Prop
  | .closing _ :: _ | .awaiting _ :: _ => False
  | _ => True

variable {stack : List (Activity Gen Await Object)}

theorem WaitsFor.base {agen : Await → Gen} {g : Gen} (h : WaitsFor g stack) :
    Base agen g stack := by
  cases stack with
  | nil => exact trivial
  | cons activity rest =>
    cases activity with
    | body => exact h
    | closing | awaiting => exact h.elim

/-- The body of the generator is not at its poll. -/
def NotCalled [DecidableEq Gen] (g : Gen) (stack : List (Activity Gen Await Object)) : Prop :=
  ∀ entry, (entry, .called) ∉ activities g stack

theorem notCalled_of_polls [DecidableEq Gen] [DecidableEq Await] [DecidableEq Object]
    {m : Machine Gen Await Object} {g : Gen} (h : m.polls g = false) : NotCalled g m.stack := by
  intro entry hmem
  obtain ⟨activity, hactivity, hsome⟩ := List.mem_filterMap.mp hmem
  have hfalse := List.any_eq_false.mp h activity hactivity
  cases activity with
  | closing | awaiting => exact absurd hsome nofun
  | body g' entry' phase => grind

theorem NotCalled.tail [DecidableEq Gen] {g : Gen} {activity : Activity Gen Await Object}
    (h : NotCalled g (activity :: stack)) : NotCalled g stack :=
  fun entry hmem ↦ h entry ((List.sublist_cons_self _ _).filterMap _ |>.mem hmem)

theorem NotCalled.cons [DecidableEq Gen] {g g' : Gen} {entry : UInt32} {phase : Phase Gen Object}
    (h : NotCalled g stack) (hphase : phase ≠ .called) : NotCalled g (.body g' entry phase :: stack) := by
  intro entry' hmem
  by_cases heq : g' = g
  · subst heq
    rw [activities_body, List.mem_cons, Prod.mk.injEq] at hmem
    exact hmem.elim (fun hhead ↦ hphase hhead.2.symm) (h entry')
  · rw [activities_body_ne heq] at hmem
    exact h entry' hmem

section Machine

variable [DecidableEq Gen] {m : Machine Gen Await Object} {g : Gen}
  {stack : List (Activity Gen Await Object)} {ending : Option (Ending Object)}
  {outcome : Outcome Object}

/-- Every generator is as the activations on a stack say. -/
def Machine.GensOk (m : Machine Gen Await Object) (stack : List (Activity Gen Await Object)) : Prop :=
  ∀ g, GenOk (m.generators g) (activities g stack) (accepted g m.log) (delivered g m.log)

def Machine.agen (m : Machine Gen Await Object) (a : Await) : Gen :=
  (m.awaitables a).agen

structure Machine.Inv (m : Machine Gen Await Object) : Prop where
  shape : Shape m.agen m.stack
  settled : Settled m.stack
  gens : m.GensOk m.stack

theorem Machine.Initial.inv (h : m.Initial) : m.Inv where
  shape := by rw [h.stack]; exact trivial
  settled := by rw [h.stack]; exact trivial
  gens := by
    intro g
    obtain ⟨kind, slots, hnew⟩ := h.generators g
    rw [hnew, h.stack, h.log]
    exact
      { closed := nofun
        empty := fun hstate ↦ absurd hstate (show resumeStart ≠ resumeFinished by decide)
        single := .inl rfl
        phase := ⟨show resumeStart ≠ resumeRunning by decide, rfl, rfl, rfl⟩ }

/-- One generator, its activations and its notes change. -/
theorem Machine.GensOk.update {m' : Machine Gen Await Object}
    {stack' : List (Activity Gen Await Object)} (h : m.GensOk stack) (g : Gen)
    (hgenerators : ∀ g' ≠ g, m'.generators g' = m.generators g')
    (hstack : ∀ g' ≠ g, activities g' stack' = activities g' stack)
    (haccepted : ∀ g' ≠ g, accepted g' m'.log = accepted g' m.log)
    (hdelivered : ∀ g' ≠ g, delivered g' m'.log = delivered g' m.log)
    (hg : GenOk (m'.generators g) (activities g stack') (accepted g m'.log) (delivered g m'.log)) :
    m'.GensOk stack' := by
  intro g'
  by_cases heq : g' = g
  · subst heq
    exact hg
  · rw [hgenerators g' heq, hstack g' heq, haccepted g' heq, hdelivered g' heq]
    exact h g'

section Body

variable {entry : UInt32} {phase : Phase Gen Object} {rest : List (Activity Gen Await Object)}
  (h : m.GensOk (.body g entry phase :: rest))

include h

/-- The body on top is the only activation of its generator. -/
theorem Machine.GensOk.activities_rest : activities g rest = [] := by
  have hg := h g
  rw [activities_body] at hg
  exact hg.rest_eq_nil

theorem Machine.GensOk.body :
    GenOk (m.generators g) [(entry, phase)] (accepted g m.log) (delivered g m.log) := by
  have hg := h g
  rwa [activities_body, h.activities_rest] at hg

end Body

/-- A note that is not of a payload changes nothing. -/
theorem Machine.GensOk.note {note : Note Gen Await Object} (h : m.GensOk stack)
    (hnote : ∀ g, OtherNote g note) : (m.note note).GensOk stack := by
  intro g
  have haccepted : accepted g (m.note note).log = accepted g m.log := accepted_other (hnote g)
  have hdelivered : delivered g (m.note note).log = delivered g m.log := delivered_other (hnote g)
  rw [haccepted, hdelivered]
  exact h g

theorem Machine.GensOk.setClosed (h : m.GensOk stack)
    (hfinished : (m.generators g).frame.resumeState = resumeFinished) :
    (m.setClosed g).GensOk stack := by
  refine Machine.GensOk.note ?_ fun _ ↦ trivial
  refine h.update g (fun g' hne ↦ Function.update_of_ne hne _ _) (fun _ _ ↦ rfl) (fun _ _ ↦ rfl)
    (fun _ _ ↦ rfl) ?_
  have hg := h g
  have hupdate : (m.setGenerator g { m.generators g with closed := true }).generators g =
      { m.generators g with closed := true } := Function.update_self _ _ _
  rw [hupdate]
  exact { hg with closed := fun _ ↦ hfinished }

/-- The end of a delegation step leaves the body running or about to suspend. -/
theorem Machine.stepped_inv {entry : UInt32} {phase : Phase Gen Object}
    {rest : List (Activity Gen Await Object)} (hphase : phase.IsConsumed)
    (hbase : Base m.agen g rest) (hshape : Shape m.agen rest)
    (hgens : m.GensOk (.body g entry phase :: rest)) : (m.stepped g entry rest outcome).Inv := by
  have hgens' (phase' : Phase Gen Object) (hphase' : phase'.IsConsumed) :
      m.GensOk (.body g entry phase' :: rest) := by
    refine hgens.update g (fun _ _ ↦ rfl) (fun g' hne ↦ ?_) (fun _ _ ↦ rfl) (fun _ _ ↦ rfl) ?_
    · rw [activities_body_ne hne.symm, activities_body_ne hne.symm]
    · rw [activities_body, hgens.activities_rest]
      exact hgens.body.rephase hphase hphase'
  unfold Machine.stepped
  cases outcome with
  | returned value =>
    exact ⟨⟨hbase, hshape⟩, trivial,
      Machine.GensOk.note (hgens' (.passing value) trivial) fun _ ↦ trivial⟩
  | raised pending =>
    exact ⟨⟨hbase, hshape⟩, trivial,
      Machine.GensOk.note (hgens' (.running true) trivial) fun _ ↦ trivial⟩

variable [DecidableEq Await]

omit [DecidableEq Gen] in
theorem Machine.agen_setAwaitable (a : Await) (state : AwaitableState) :
    (m.setAwaitable a state).agen = m.agen := by
  funext a'
  by_cases heq : a' = a
  · subst heq
    simp [Machine.agen, Machine.setAwaitable]
  · simp [Machine.agen, Machine.setAwaitable, heq]

variable [DecidableEq Object] {exceptions : Exceptions Object}

theorem Machine.agen_settle (a : Await) (verdict : Verdict Object) :
    (m.settle a ending verdict).agen = m.agen := by
  have hset := m.agen_setAwaitable a (verdict.state (m.awaitables a).state)
  unfold Machine.settle
  split
  · exact hset
  · exact hset

theorem Machine.reply_inv_of_waitsFor (hwaits : WaitsFor g stack) (hshape : Shape m.agen stack)
    (hgens : m.GensOk stack) : (m.reply exceptions ending outcome stack).Inv := by
  rcases stack with _ | ⟨activity, rest⟩
  · exact ⟨trivial, trivial, hgens.note fun _ ↦ trivial⟩
  · cases activity with
    | closing | awaiting => exact hwaits.elim
    | body g' entry phase =>
      cases phase with
      | passing => exact hwaits.elim
      | stepping delegate forward =>
        have hconsumed : (Phase.stepping delegate forward).IsConsumed := trivial
        exact Machine.stepped_inv hconsumed hshape.1 hshape.2 hgens
      | called | running | foreign => exact ⟨hshape, trivial, hgens.note fun _ ↦ trivial⟩

/-- An outcome for which a generator is marked closed comes from a finished one. -/
def FinishedIfEnded (exceptions : Exceptions Object) (frame : GenFrame Object)
    (outcome : Outcome Object) : Prop :=
  outcome.isRaised exceptions .stopIteration = true ∨
      outcome.isRaised exceptions .stopAsyncIteration = true ∨
        outcome.isRaised exceptions .generatorExit = true →
    frame.resumeState = resumeFinished

omit [DecidableEq Object] in
/-- An awaitable closes its generator when an exception that ends it came back. -/
theorem ended_of_closed {mode : AwaitableMode} (h : classifyAgenStep exceptions mode outcome = .closed) :
    outcome.isRaised exceptions .stopIteration = true ∨
      outcome.isRaised exceptions .stopAsyncIteration = true ∨
        outcome.isRaised exceptions .generatorExit = true := by
  unfold classifyAgenStep at h
  split at h
  · split at h <;> exact absurd h nofun
  · exact absurd h nofun
  · split at h
    · split at h
      · assumption
      · exact absurd h nofun
    · split at h <;> exact absurd h nofun

theorem Machine.reply_inv (hbase : Base m.agen g stack) (hshape : Shape m.agen stack)
    (hgens : m.GensOk stack)
    (hfinished : FinishedIfEnded exceptions (m.generators g).frame outcome) :
    (m.reply exceptions ending outcome stack).Inv := by
  rcases stack with _ | ⟨activity, rest⟩
  · exact Machine.reply_inv_of_waitsFor (g := g) hbase hshape hgens
  · cases activity with
    | body g' entry phase => exact Machine.reply_inv_of_waitsFor (g := g) hbase hshape hgens
    | closing g' =>
      obtain ⟨rfl, hwaits⟩ := hbase
      rw [Machine.reply]
      refine Machine.reply_inv_of_waitsFor hwaits ?_ ?_
      · split <;> exact hshape
      · split
        · rename_i hclosed
          refine Machine.GensOk.setClosed hgens (hfinished ?_)
          cases outcome with
          | returned value => exact absurd hclosed nofun
          | raised pending =>
            simp only [ponGenClosed] at hclosed
            split at hclosed
            · rename_i hkind
              exact hkind.elim (fun h ↦ .inr (.inr h)) .inl
            · exact absurd hclosed nofun
        · exact hgens
    | awaiting a =>
      obtain ⟨rfl, hwaits⟩ := hbase
      rw [Machine.reply]
      refine Machine.reply_inv_of_waitsFor hwaits ?_ ?_
      · rw [Machine.agen_settle]
        exact hshape
      · have hnoted (verdict : Verdict Object) :
            ((m.setAwaitable a (verdict.state (m.awaitables a).state)).note
              (.awaited a ending verdict)).GensOk rest := Machine.GensOk.note hgens fun _ ↦ trivial
        unfold Machine.settle
        simp only
        split
        · rename_i hclosed
          exact (hnoted _).setClosed (hfinished (ended_of_closed hclosed))
        · exact hnoted _

end Machine

end Pon.Generator
