import Pon.Generator.Preservation

/-!
# What the steps never take back

A generator that was closed or has finished stays so, its body is not called again, and only a body
that returned ends an iteration. `Extends` says this of any part of a step, so the helpers compose.
-/

namespace Pon.Generator

variable {Gen Await Object : Type}

/-- A note that a part of a step from `m` to `m'` may leave. -/
def NoteOk (exceptions : Exceptions Object) (m m' : Machine Gen Await Object) :
    Note Gen Await Object → Prop
  | .closed g => (m'.generators g).closed = true
  | .called g _ _ _ => ¬(m.generators g).Ended
  | .ended _ ending outcome =>
    outcome.isRaised exceptions .stopIteration = true → ending = .finished
  | _ => True

structure Extends (exceptions : Exceptions Object) (m m' : Machine Gen Await Object) : Prop where
  kind : ∀ g, (m'.generators g).kind = (m.generators g).kind
  agen : m'.agen = m.agen
  closed : ∀ g, (m.generators g).closed = true → (m'.generators g).closed = true
  finished : ∀ g, (m.generators g).frame.resumeState = resumeFinished →
    (m'.generators g).frame.resumeState = resumeFinished
  log : ∃ notes, m'.log = m.log ++ notes ∧ ∀ note ∈ notes, NoteOk exceptions m m' note

variable {exceptions : Exceptions Object} {m m' m'' : Machine Gen Await Object} {g : Gen}

theorem Extends.ended (h : Extends exceptions m m') (hended : (m.generators g).Ended) :
    (m'.generators g).Ended := hended.imp (h.finished g) (h.closed g)

theorem Extends.refl : Extends exceptions m m where
  kind _ := rfl
  agen := rfl
  closed _ := id
  finished _ := id
  log := ⟨[], by simp, by simp⟩

theorem Extends.trans (h : Extends exceptions m m') (h' : Extends exceptions m' m'') :
    Extends exceptions m m'' where
  kind g := (h'.kind g).trans (h.kind g)
  agen := h'.agen.trans h.agen
  closed g hclosed := h'.closed g (h.closed g hclosed)
  finished g hfinished := h'.finished g (h.finished g hfinished)
  log := by
    obtain ⟨notes, hlog, hnotes⟩ := h.log
    obtain ⟨notes', hlog', hnotes'⟩ := h'.log
    refine ⟨notes ++ notes', by rw [hlog', hlog, List.append_assoc], fun note hmem ↦ ?_⟩
    rcases List.mem_append.mp hmem with hmem | hmem
    · have hok := hnotes note hmem
      cases note with
      | closed g => exact h'.closed g hok
      | called | ended | delivered | stepped | begun | awaited | answered => exact hok
    · have hok := hnotes' note hmem
      cases note with
      | called g => exact fun hended ↦ hok (h.ended hended)
      | closed | ended | delivered | stepped | begun | awaited | answered => exact hok

/-- Only the stack, the flag and the log change. -/
theorem Extends.of_eq (hgenerators : m'.generators = m.generators) (hagen : m'.agen = m.agen)
    {notes : List (Note Gen Await Object)} (hlog : m'.log = m.log ++ notes)
    (hnotes : ∀ note ∈ notes, NoteOk exceptions m m' note) : Extends exceptions m m' where
  kind g := by rw [hgenerators]
  agen := hagen
  closed g := by rw [hgenerators]; exact id
  finished g := by rw [hgenerators]; exact id
  log := ⟨notes, hlog, hnotes⟩

theorem Extends.of_same (hgenerators : m'.generators = m.generators) (hagen : m'.agen = m.agen)
    (hlog : m'.log = m.log) : Extends exceptions m m' :=
  .of_eq hgenerators hagen (by rw [hlog, List.append_nil]) (by simp)

theorem Extends.note {note : Note Gen Await Object} (h : NoteOk exceptions m (m.note note) note) :
    Extends exceptions m (m.note note) :=
  .of_eq rfl rfl rfl (by simpa using h)

section Generators

variable [DecidableEq Gen]

variable {generator : PyGenerator Object} {frame : GenFrame Object} {entry : UInt32} {a : Await}
  {ending : Option (Ending Object)}

theorem Extends.setGenerator (hkind : generator.kind = (m.generators g).kind)
    (hclosed : (m.generators g).closed = true → generator.closed = true)
    (hfinished : (m.generators g).frame.resumeState = resumeFinished →
      generator.frame.resumeState = resumeFinished) :
    Extends exceptions m (m.setGenerator g generator) := by
  have hupdate (g' : Gen) : (m.setGenerator g generator).generators g' =
      if g' = g then generator else m.generators g' := Function.update_apply _ _ _ _
  refine ⟨fun g' ↦ ?_, rfl, fun g' ↦ ?_, fun g' ↦ ?_, [], by simp [Machine.setGenerator], by simp⟩
  all_goals
    rw [hupdate]
    by_cases heq : g' = g
    · subst heq
      simpa using by assumption
    · simp [heq]

theorem Extends.setClosed : Extends exceptions m (m.setClosed g) := by
  have hset : Extends exceptions m (m.setGenerator g { m.generators g with closed := true }) :=
    .setGenerator rfl (fun _ ↦ rfl) id
  refine hset.trans (.note ?_)
  have hupdate : (m.setGenerator g { m.generators g with closed := true }).generators g =
      { m.generators g with closed := true } := Function.update_self _ _ _
  exact congrArg PyGenerator.closed hupdate

theorem Extends.setFrame
    (h : (m.generators g).frame.resumeState = resumeFinished → frame.resumeState = resumeFinished) :
    Extends exceptions m (m.setFrame g frame) :=
  .setGenerator rfl id h

variable {rest : List (Activity Gen Await Object)} {outcome : Outcome Object}

omit [DecidableEq Gen] in
theorem Extends.stepped : Extends exceptions m (m.stepped g entry rest outcome) := by
  cases outcome with
  | returned value => exact .of_eq rfl rfl rfl (by simp [NoteOk])
  | raised pending => exact .of_eq rfl rfl rfl (by simp [NoteOk])

variable [DecidableEq Await] [DecidableEq Object]

omit [DecidableEq Gen] [DecidableEq Object] in
theorem Extends.setAwaitable {state : AwaitableState} :
    Extends exceptions m (m.setAwaitable a state) :=
  .of_same rfl (m.agen_setAwaitable a state) rfl

theorem Extends.settle {verdict : Verdict Object} :
    Extends exceptions m (m.settle a ending verdict) := by
  have hnoted : Extends exceptions m
      ((m.setAwaitable a (verdict.state (m.awaitables a).state)).note (.awaited a ending verdict)) :=
    Extends.setAwaitable.trans (.note trivial)
  unfold Machine.settle
  simp only
  split
  · exact hnoted.trans .setClosed
  · exact hnoted

theorem Extends.reply {stack : List (Activity Gen Await Object)} :
    Extends exceptions m (m.reply exceptions ending outcome stack) := by
  induction stack generalizing m ending outcome with
  | nil => exact .of_eq rfl rfl rfl (by simp [NoteOk])
  | cons activity rest ih =>
    cases activity with
    | closing g =>
      rw [Machine.reply]
      refine Extends.trans ?_ ih
      split
      · exact .setClosed
      · exact .refl
    | awaiting a =>
      rw [Machine.reply]
      exact Extends.settle.trans ih
    | body g entry phase =>
      cases phase with
      | stepping delegate forward => exact .stepped
      | called | running | foreign | passing => exact .of_eq rfl rfl rfl (by simp [NoteOk])

theorem Extends.resume {sent thrown : Option Object} :
    Extends exceptions m (m.resume exceptions g sent thrown) := by
  unfold Machine.resume
  split
  · exact .reply
  · rename_i generator hcalls
    obtain ⟨-, hended, rfl⟩ := calls_of_ponGenResume hcalls
    have hset : Extends exceptions m (m.setGenerator g { m.generators g with
        frame := { (m.generators g).frame with sentValue := sent, thrownExc := thrown } }) :=
      .setGenerator rfl id id
    exact ⟨hset.kind, hset.agen, hset.closed, hset.finished, _, rfl, by simpa [NoteOk] using hended⟩

theorem Extends.throw {exc : Option Object} : Extends exceptions m (m.throw exceptions g exc) := by
  cases exc with
  | some exc => exact .resume
  | none => exact .reply

theorem Extends.close : Extends exceptions m (m.close exceptions g) := by
  unfold Machine.close
  split
  · exact .reply
  · rename_i generator hclosed
    obtain ⟨-, rfl⟩ := closed_of_ponGenClose hclosed
    have hset : Extends exceptions m (m.setGenerator g { m.generators g with
        closed := true
        frame :=
          if (m.generators g).frame.resumeState = resumeFinished then (m.generators g).frame
          else (m.generators g).frame.finish }) :=
      .setGenerator rfl (fun _ ↦ rfl) fun hfinished ↦ by simp [hfinished]
    refine (hset.trans (.note ?_)).trans .reply
    have hupdate (generator : PyGenerator Object) :
        (m.setGenerator g generator).generators g = generator := Function.update_self _ _ _
    exact congrArg PyGenerator.closed (hupdate _)
  · have hpushed (stack : List (Activity Gen Await Object)) : Extends exceptions m { m with stack } :=
      .of_same rfl rfl rfl
    exact (hpushed _).trans .resume

theorem Extends.call {call : Call Gen Await Object} : Extends exceptions m (m.call exceptions call) := by
  cases call with
  | send g value => exact .resume
  | throw g exc => exact .throw
  | close g => exact .close
  | awaitStep a sent thrown =>
    unfold Machine.call Machine.awaitStep
    simp only
    split
    · exact .reply
    · have hbegun : Extends exceptions m ((m.setAwaitable a .iter).note (.begun a)) :=
        Extends.setAwaitable.trans (.note trivial)
      have hset : Extends exceptions m
          { (m.setAwaitable a .iter).note (.begun a) with stack := .awaiting a :: m.stack } :=
        hbegun.trans (.of_same rfl rfl rfl)
      split
      · exact hset.trans .resume
      · exact hset.trans .throw
  | awaitClose a => exact Extends.setAwaitable.trans .reply

theorem Extends.delegateStep {consumed : Bool} {delegate : Option Gen} :
    Extends exceptions m (m.delegateStep exceptions g entry consumed rest delegate) := by
  have htaken : Extends exceptions m (m.takePayload g entry consumed) := by
    have hcleared : Extends exceptions m (m.setFrame g (m.generators g).frame.clear) := .setFrame id
    unfold Machine.takePayload
    simp only
    split
    · exact hcleared
    · refine hcleared.trans (.note ?_)
      exact trivial
  have hpushed (stack : List (Activity Gen Await Object)) : Extends exceptions m
      { m.takePayload g entry consumed with stack } := htaken.trans (.of_same rfl rfl rfl)
  unfold Machine.delegateStep
  simp only
  cases delegate with
  | none => exact hpushed _
  | some delegate =>
    cases m.forward exceptions g with
    | close exc => exact (hpushed _).trans .close
    | throw exc => exact (hpushed _).trans .throw
    | step =>
      simp only
      split <;> exact (hpushed _).trans .resume

theorem Extends.leave {ending : Ending Object}
    (h : outcome.isRaised exceptions .stopIteration = true → ending = .finished) :
    Extends exceptions m (m.leave exceptions g rest ending outcome) := by
  unfold Machine.leave
  refine Extends.trans (.note ?_) .reply
  intro hraised
  refine h ?_
  cases outcome with
  | raised pending => exact hraised
  | returned value =>
    simp only [ponGenResumed] at hraised
    split at hraised <;> simp [Outcome.isRaised] at hraised

omit [DecidableEq Gen] [DecidableEq Object] in
/-- A body that leaves with a `StopIteration` has returned. -/
theorem Leaves.finished {phase : Phase Gen Object} {ending : Ending Object}
    (h : Leaves exceptions generator phase frame ending outcome)
    (hraised : outcome.isRaised exceptions .stopIteration = true) : ending = .finished := by
  cases h with
  | suspend | pass => simp [Outcome.isRaised] at hraised
  | finish => rfl
  | unwind pending =>
    rw [ponGenUnwind_isRaised] at hraised
    cases hraised

theorem Extends.move {event : Event Gen Await Object} (h : m.Inv) (hmove : Move exceptions m event m') :
    Extends exceptions m m' := by
  have hopen {g : Gen} {entry : UInt32} {phase : Phase Gen Object}
      {rest : List (Activity Gen Await Object)} (hstack : m.stack = .body g entry phase :: rest) :
      (m.generators g).frame.resumeState ≠ resumeFinished := by
    have hgens := h.gens
    rw [hstack] at hgens
    exact hgens.body.not_finished
  cases hmove with
  | call call hcode => exact .call
  | abandon hstack =>
    refine (Extends.setFrame fun _ ↦ rfl).trans (.leave fun hraised ↦ ?_)
    rw [ponGenUnwind_isRaised] at hraised
    cases hraised
  | enter hstack hfinished =>
    exact (Extends.setFrame fun h ↦ absurd h hfinished).trans (.of_same rfl rfl rfl)
  | consume hstack =>
    refine (Extends.setFrame fun hfinished ↦ absurd hfinished (hopen hstack)).trans
      (.of_eq rfl rfl rfl ?_)
    simp [NoteOk]
  | setSlot => exact .setFrame id
  | delegate => exact .delegateStep
  | leave hstack hleaves =>
    exact (Extends.setFrame fun hfinished ↦ absurd hfinished (hopen hstack)).trans
      (.leave hleaves.finished)
  | foreign => exact .stepped

end Generators

end Pon.Generator
