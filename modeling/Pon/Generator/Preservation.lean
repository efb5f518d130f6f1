import Pon.Generator.Invariant

/-!
# The steps keep the invariant

First the helpers that code and the driver call, each from what it finds on the stack, then the events
of the bodies.
-/

namespace Pon.Generator

variable {Gen Await Object : Type}

/-- The generator has finished or was closed. -/
def PyGenerator.Ended (generator : PyGenerator Object) : Prop :=
  generator.frame.resumeState = resumeFinished ∨ generator.closed = true

variable {generator : PyGenerator Object} {sent thrown : Option Object}

variable {acts : List (UInt32 × Phase Gen Object)}
  {acc del : List (UInt32 × Option Object × Option Object)} {generator' : PyGenerator Object}

theorem GenOk.finished (h : GenOk generator acts acc del) (hended : generator.Ended) :
    generator.frame.resumeState = resumeFinished :=
  hended.elim id h.closed

/-- A generator that is not running has no activation, unless it has just been called. -/
theorem activities_eq_nil (h : GenOk generator acts acc del)
    (hrunning : generator.frame.resumeState ≠ resumeRunning)
    (hcalled : ∀ entry, (entry, .called) ∉ acts) : acts = [] := by
  have hphase := h.phase
  rcases acts with _ | ⟨⟨entry, phase⟩, rest⟩
  · rfl
  · have hnil := h.rest_eq_nil
    subst hnil
    cases phase with
    | called => exact absurd (List.mem_singleton_self _) (hcalled entry)
    | running consumed => cases consumed <;> exact absurd hphase.1 hrunning
    | stepping | foreign | passing => exact absurd hphase.1 hrunning

variable {exceptions : Exceptions Object} {m : Machine Gen Await Object} {g : Gen}

/-- A generator that is not running is closed at once when it has ended or has not started. -/
theorem closed_of_ponGenClose (h : ponGenClose exceptions generator = .closed generator') :
    generator.frame.resumeState ≠ resumeRunning ∧
      generator' = { generator with
        closed := true
        frame :=
          if generator.frame.resumeState = resumeFinished then generator.frame
          else generator.frame.finish } := by
  unfold ponGenClose at h
  simp only at h
  split at h
  · cases h
  · rename_i hrunning
    split at h
    · exact ⟨hrunning, (Closing.closed.inj h).symm⟩
    · cases h

theorem waitsFor_of_codeRuns (h : m.codeRuns = true) (g : Gen) : WaitsFor g m.stack := by
  unfold Machine.codeRuns at h
  split at h
  iterate 4
    · rename_i hstack
      rw [hstack]
      exact trivial
  · exact absurd h nofun

variable {entry : UInt32} {phase : Phase Gen Object} {rest : List (Activity Gen Await Object)}
  {frame : GenFrame Object} {ending : Ending Object} {outcome : Outcome Object}

/-- What a body leaves behind when its payload is consumed. -/
theorem Leaves.frame_ok (h : Leaves exceptions generator phase frame ending outcome)
    (hgen : GenOk generator [(entry, phase)] acc del) :
    phase.IsConsumed ∧ frame.resumeState ≠ resumeRunning ∧
      (frame.resumeState = resumeFinished → frame.Empty) ∧ frame.sentValue = none ∧
        frame.thrownExc = none ∧ FinishedIfEnded exceptions frame outcome := by
  cases h with
  | suspend hstate | pass hstate =>
    have hphase := hgen.phase
    exact ⟨trivial, hstate.2.1, fun hfinished ↦ absurd hfinished hstate.2.2, hphase.2.1, hphase.2.2.1,
      fun hraised ↦ by simp [Outcome.isRaised] at hraised⟩
  | finish retval | unwind pending =>
    exact ⟨trivial, resumeRunning_ne_resumeFinished.symm, fun _ ↦ GenFrame.empty_finish _, rfl, rfl,
      fun _ ↦ rfl⟩

variable [DecidableEq Gen]

/-- The body on top writes its frame, and goes on in another phase. -/
theorem Machine.GensOk.setFrame {phase' : Phase Gen Object}
    (h : m.GensOk (.body g entry phase :: rest))
    (hg : GenOk (m.generators g) [(entry, phase)] (accepted g m.log) (delivered g m.log) →
      GenOk { m.generators g with frame } [(entry, phase')] (accepted g m.log) (delivered g m.log)) :
    (m.setFrame g frame).GensOk (.body g entry phase' :: rest) := by
  refine h.update g (fun g' hne ↦ Function.update_of_ne hne _ _) (fun g' hne ↦ ?_) (fun _ _ ↦ rfl)
    (fun _ _ ↦ rfl) ?_
  · rw [activities_body_ne hne.symm, activities_body_ne hne.symm]
  · have hupdate : (m.setFrame g frame).generators g = { m.generators g with frame } :=
      Function.update_self _ _ _
    rw [activities_body, h.activities_rest, hupdate]
    exact hg h.body

/-- The body takes the payload out of its frame. -/
theorem Machine.GensOk.consume (h : m.GensOk (.body g entry (.running false) :: rest))
    (hphase : phase.IsConsumed) (hstate : frame.resumeState = (m.generators g).frame.resumeState)
    (hsent : frame.sentValue = none) (hthrown : frame.thrownExc = none) :
    ((m.setFrame g frame).note (.delivered g entry (m.generators g).frame.sentValue
      (m.generators g).frame.thrownExc)).GensOk (.body g entry phase :: rest) := by
  refine h.update g (fun g' hne ↦ Function.update_of_ne hne _ _)
    (fun g' hne ↦ by rw [activities_body_ne hne.symm, activities_body_ne hne.symm])
    (fun g' hne ↦ accepted_other hne.symm) (fun g' hne ↦ delivered_other hne.symm) ?_
  have hold := h.body
  have hupdate : ((m.setFrame g frame).note (.delivered g entry (m.generators g).frame.sentValue
      (m.generators g).frame.thrownExc)).generators g = { m.generators g with frame } :=
    Function.update_self _ _ _
  have hrunning : frame.resumeState = resumeRunning := hstate.trans hold.phase.1
  have hnotFinished : frame.resumeState ≠ resumeFinished := by
    rw [hrunning]
    exact resumeRunning_ne_resumeFinished
  rw [activities_body, h.activities_rest, hupdate]
  exact
    { closed := fun hclosed ↦ hstate.trans (hold.closed hclosed)
      empty := fun hfinished ↦ absurd hfinished hnotFinished
      single := .inl hsent
      phase := (phaseOk_consumed hphase).mpr ⟨hrunning, hsent, hthrown, by
        have haccepted := hold.phase.2
        simp only [Machine.note, accepted_append, delivered_append]
        simpa [accepted, delivered, Machine.setFrame, Machine.setGenerator] using haccepted⟩ }

/-- A body at its poll finds the state that it was called in. -/
theorem Machine.Inv.called (h : m.Inv)
    (hstack : m.stack = .body g entry .called :: rest) :
    (m.generators g).frame.resumeState = entry ∧
      (m.generators g).frame.resumeState ≠ resumeRunning ∧
        (m.generators g).frame.resumeState ≠ resumeFinished := by
  have hgens := h.gens
  rw [hstack] at hgens
  obtain ⟨hstate, hrunning, hfinished, -⟩ := hgens.body.phase
  exact ⟨hstate, hstate ▸ hrunning, hstate ▸ hfinished⟩

variable [DecidableEq Object]

/-- The driver answers with an exception that ends an iteration only when the generator has ended. -/
theorem ended_of_answers {outcome : Outcome Object}
    (h : ponGenResume exceptions generator sent thrown = .answers outcome)
    (hraised : outcome.isRaised exceptions .stopIteration = true ∨
      outcome.isRaised exceptions .stopAsyncIteration = true ∨
        outcome.isRaised exceptions .generatorExit = true) : generator.Ended := by
  unfold ponGenResume at h
  simp only at h
  split at h
  · cases h
    simp [isRaised_raiseError] at hraised
  · split at h
    · assumption
    · split at h
      · cases h
        simp [isRaised_raiseError] at hraised
      · cases h

/-- The driver calls the body of a suspended generator, with the payload in its frame. -/
theorem calls_of_ponGenResume
    (h : ponGenResume exceptions generator sent thrown = .calls generator') :
    generator.frame.resumeState ≠ resumeRunning ∧ ¬generator.Ended ∧
      generator' = { generator with
        frame := { generator.frame with sentValue := sent, thrownExc := thrown } } := by
  unfold ponGenResume at h
  simp only at h
  split at h
  · cases h
  · rename_i hrunning
    split at h
    · split at h
      · cases h
      · split at h <;> cases h
    · rename_i hended
      split at h
      · cases h
      · exact ⟨hrunning, hended, (Resumption.calls.inj h).symm⟩

variable [DecidableEq Await]

theorem Machine.resume_inv (hbase : Base m.agen g m.stack) (hshape : Shape m.agen m.stack)
    (hgens : m.GensOk m.stack) (hcalled : NotCalled g m.stack)
    (hsingle : sent = none ∨ thrown = none) :
    (m.resume exceptions g sent thrown).Inv := by
  unfold Machine.resume
  split
  · rename_i outcome hanswers
    exact Machine.reply_inv hbase hshape hgens fun hraised ↦
      (hgens g).finished (ended_of_answers hanswers hraised)
  · rename_i generator hcalls
    obtain ⟨hrunning, hended, rfl⟩ := calls_of_ponGenResume hcalls
    refine ⟨⟨hbase, hshape⟩, trivial, ?_⟩
    refine hgens.update g (fun g' hne ↦ Function.update_of_ne hne _ _)
      (fun g' hne ↦ activities_body_ne hne.symm _ _) (fun g' hne ↦ accepted_other hne.symm)
      (fun g' hne ↦ delivered_other hne.symm) ?_
    have hg := hgens g
    have hnil : activities g m.stack = [] := activities_eq_nil hg hrunning hcalled
    rw [hnil] at hg
    have hnotFinished : (m.generators g).frame.resumeState ≠ resumeFinished := fun h ↦ hended (.inl h)
    have hupdate : (m.setGenerator g { m.generators g with
        frame := { (m.generators g).frame with sentValue := sent, thrownExc := thrown } }).generators g =
          { m.generators g with
            frame := { (m.generators g).frame with sentValue := sent, thrownExc := thrown } } :=
      Function.update_self _ _ _
    rw [activities_body, hnil, accepted_append, delivered_append]
    simp only [hupdate]
    exact
      { closed := fun hclosed ↦ absurd (.inr hclosed) hended
        empty := fun hstate ↦ absurd hstate hnotFinished
        single := hsingle
        phase := ⟨rfl, hrunning, hnotFinished, by
          rw [hg.phase.2.2.2]
          simp [accepted, delivered]⟩ }

theorem Machine.throw_inv {exc : Option Object} (hbase : Base m.agen g m.stack)
    (hshape : Shape m.agen m.stack) (hgens : m.GensOk m.stack) (hcalled : NotCalled g m.stack) :
    (m.throw exceptions g exc).Inv := by
  cases exc with
  | some exc => exact Machine.resume_inv hbase hshape hgens hcalled (.inl rfl)
  | none =>
    refine Machine.reply_inv hbase hshape hgens fun hraised ↦ ?_
    simp [isRaised_raiseError] at hraised

/-- Closing leaves nothing in the frame. -/
theorem Machine.close_inv (hwaits : WaitsFor g m.stack) (hshape : Shape m.agen m.stack)
    (hgens : m.GensOk m.stack) (hcalled : NotCalled g m.stack) : (m.close exceptions g).Inv := by
  unfold Machine.close
  split
  · exact Machine.reply_inv_of_waitsFor hwaits hshape hgens
  · rename_i generator hclosed
    refine Machine.reply_inv_of_waitsFor hwaits hshape (Machine.GensOk.note ?_ fun _ ↦ trivial)
    refine hgens.update g (fun g' hne ↦ Function.update_of_ne hne _ _) (fun _ _ ↦ rfl)
      (fun _ _ ↦ rfl) (fun _ _ ↦ rfl) ?_
    have hupdate : (m.setGenerator g generator).generators g = generator := Function.update_self _ _ _
    have hg := hgens g
    obtain ⟨hrunning, rfl⟩ := closed_of_ponGenClose hclosed
    have hnil : activities g m.stack = [] := activities_eq_nil hg hrunning hcalled
    rw [hnil] at hg
    rw [hupdate, hnil]
    by_cases hfinished : (m.generators g).frame.resumeState = resumeFinished
    · simp only [if_pos hfinished]
      exact { hg with closed := fun _ ↦ hfinished, empty := fun _ ↦ hg.empty hfinished }
    · simp only [if_neg hfinished]
      exact
        { closed := fun _ ↦ rfl
          empty := fun _ ↦ GenFrame.empty_finish _
          single := .inl rfl
          phase := ⟨resumeRunning_ne_resumeFinished.symm, rfl, rfl, hg.phase.2.2.2⟩ }
  · exact Machine.resume_inv ⟨rfl, hwaits⟩ hshape hgens hcalled (.inl rfl)

theorem Machine.Inv.awaitStep (h : m.Inv) (hcode : m.codeRuns = true) {a : Await}
    (hcalled : NotCalled (m.agen a) m.stack) (sent thrown : Option Object) :
    (m.awaitStep exceptions a sent thrown).Inv := by
  have hwaits := waitsFor_of_codeRuns hcode (m.agen a)
  unfold Machine.awaitStep
  simp only
  split
  · exact Machine.reply_inv_of_waitsFor hwaits h.shape h.gens
  · have hagen : (m.setAwaitable a .iter).agen = m.agen := m.agen_setAwaitable a .iter
    have hshape : Shape (m.setAwaitable a .iter).agen (.awaiting a :: m.stack) := by
      rw [hagen]
      exact h.shape
    have hbase : Base (m.setAwaitable a .iter).agen (m.agen a) (.awaiting a :: m.stack) :=
      ⟨congrFun hagen a, hwaits⟩
    have hgens : ((m.setAwaitable a .iter).note (.begun a)).GensOk (.awaiting a :: m.stack) :=
      Machine.GensOk.note h.gens fun _ ↦ trivial
    split
    · exact Machine.resume_inv (g := m.agen a) hbase hshape hgens hcalled (.inr rfl)
    · exact Machine.throw_inv (g := m.agen a) hbase hshape hgens hcalled

theorem Machine.Inv.call (h : m.Inv) (hcode : m.codeRuns = true) {call : Call Gen Await Object}
    (hquiet : m.PollsQuiet (.call call)) : (m.call exceptions call).Inv := by
  cases call with
  | send g value =>
    exact Machine.resume_inv (waitsFor_of_codeRuns hcode g).base h.shape h.gens
      (notCalled_of_polls (hquiet g rfl)) (.inr rfl)
  | throw g exc =>
    exact Machine.throw_inv (waitsFor_of_codeRuns hcode g).base h.shape h.gens
      (notCalled_of_polls (hquiet g rfl))
  | close g =>
    exact Machine.close_inv (waitsFor_of_codeRuns hcode g) h.shape h.gens
      (notCalled_of_polls (hquiet g rfl))
  | awaitStep a sent thrown =>
    exact h.awaitStep hcode (notCalled_of_polls (hquiet (m.agen a) rfl)) sent thrown
  | awaitClose a =>
    refine Machine.reply_inv_of_waitsFor (waitsFor_of_codeRuns hcode (m.agen a)) ?_ h.gens
    rw [Machine.agen_setAwaitable]
    exact h.shape

theorem Machine.leave_inv (hphase : phase.IsConsumed) (hbase : Base m.agen g rest)
    (hshape : Shape m.agen rest) (hgens : m.GensOk (.body g entry phase :: rest))
    (hrunning : frame.resumeState ≠ resumeRunning)
    (hempty : frame.resumeState = resumeFinished → frame.Empty)
    (hpayload : GenOk (m.generators g) [(entry, phase)] (accepted g m.log) (delivered g m.log) →
      frame.sentValue = none ∧ frame.thrownExc = none)
    (hfinished : FinishedIfEnded exceptions frame outcome) :
    ((m.setFrame g frame).leave exceptions g rest ending outcome).Inv := by
  have hupdate : (m.setFrame g frame).generators g = { m.generators g with frame } :=
    Function.update_self _ _ _
  have hrest : (m.setFrame g frame).GensOk rest := by
    refine hgens.update g (fun g' hne ↦ Function.update_of_ne hne _ _) (fun g' hne ↦ ?_)
      (fun _ _ ↦ rfl) (fun _ _ ↦ rfl) ?_
    · rw [activities_body_ne hne.symm]
    · have hold := hgens.body
      rw [hgens.activities_rest, hupdate]
      exact hold.leave hphase hrunning hempty (hpayload hold).1 (hpayload hold).2
  unfold Machine.leave
  refine Machine.reply_inv hbase hshape (Machine.GensOk.note hrest fun _ ↦ trivial) ?_
  have hframe : (((m.setFrame g frame).note (.ended g ending
      (ponGenResumed ((m.setFrame g frame).generators g).kind (m.setFrame g frame).delegationYield
        outcome))).generators g).frame = frame := congrArg PyGenerator.frame hupdate
  rw [hframe]
  intro hraised
  cases outcome with
  | raised pending => exact hfinished hraised
  | returned value =>
    simp only [ponGenResumed] at hraised
    split at hraised <;> simp [Outcome.isRaised] at hraised

theorem Machine.delegateStep_inv {consumed : Bool} {delegate : Option Gen}
    (hbase : Base m.agen g rest) (hshape : Shape m.agen rest)
    (hgens : m.GensOk (.body g entry (.running consumed) :: rest))
    (hcalled : ∀ g ∈ delegate, NotCalled g rest) :
    (m.delegateStep exceptions g entry consumed rest delegate).Inv := by
  have hagen : (m.takePayload g entry consumed).agen = m.agen := by
    unfold Machine.takePayload
    simp only
    split <;> rfl
  have hcleared (phase : Phase Gen Object) (hphase : phase.IsConsumed) :
      (m.takePayload g entry consumed).GensOk (.body g entry phase :: rest) := by
    cases consumed with
    | false => exact hgens.consume hphase rfl rfl rfl
    | true =>
      refine hgens.setFrame fun hold ↦ ?_
      have hrunning : (Phase.running true : Phase Gen Object).IsConsumed := trivial
      have hkept := hold.rephase hrunning hphase
      exact
        { hkept with
          empty := fun hfinished ↦ ⟨rfl, rfl, (hkept.empty hfinished).slots⟩
          single := .inl rfl
          phase := (phaseOk_consumed hphase).mpr
            ⟨((phaseOk_consumed hphase).mp hkept.phase).1, rfl, rfl,
              ((phaseOk_consumed hphase).mp hkept.phase).2.2.2⟩ }
  have hshape' (phase : Phase Gen Object) : Shape (m.takePayload g entry consumed).agen
      (.body g entry phase :: rest) := by
    rw [hagen]
    exact ⟨hbase, hshape⟩
  unfold Machine.delegateStep
  simp only
  cases delegate with
  | none => exact ⟨hshape' _, trivial, hcleared (.foreign _) trivial⟩
  | some delegate =>
    have hgens' (forward : Forward Object) : (m.takePayload g entry consumed).GensOk
        (.body g entry (.stepping delegate forward) :: rest) := hcleared _ trivial
    have hcalled' (forward : Forward Object) :
        NotCalled delegate (.body g entry (.stepping delegate forward) :: rest) :=
      (hcalled delegate rfl).cons nofun
    cases m.forward exceptions g with
    | close exc => exact Machine.close_inv rfl (hshape' _) (hgens' _) (hcalled' _)
    | throw exc => exact Machine.throw_inv rfl (hshape' _) (hgens' _) (hcalled' _)
    | step =>
      simp only
      split
      · exact Machine.resume_inv rfl (hshape' _) (hgens' _) (hcalled' _) (.inr rfl)
      · exact Machine.resume_inv rfl (hshape' _) (hgens' _) (hcalled' _) (.inr rfl)

theorem Machine.Inv.move {m' : Machine Gen Await Object} {event : Event Gen Await Object} (h : m.Inv)
    (hquiet : m.PollsQuiet event) (hmove : Move exceptions m event m') : m'.Inv := by
  have hshape := h.shape
  have hgens := h.gens
  cases hmove with
  | call call hcode => exact h.call hcode hquiet
  | abandon hstack hevent =>
    rcases hevent with ⟨pending, rfl⟩ | hrunning | hfinished
    · exact hquiet.elim
    · exact absurd hrunning (h.called hstack).2.1
    · exact absurd hfinished (h.called hstack).2.2
  | @enter g entry rest hstack =>
    rw [(h.called hstack).1]
    rw [hstack] at hshape hgens
    refine ⟨hshape, trivial, hgens.setFrame fun hold ↦ ?_⟩
    obtain ⟨hstate, -, hnotFinished, haccepted⟩ := hold.phase
    have hopen : (m.generators g).closed = true → False := fun hclosed ↦
      hnotFinished (hstate ▸ hold.closed hclosed)
    exact
      { hold with
        closed := fun hclosed ↦ (hopen hclosed).elim
        empty := fun hfinished ↦ absurd hfinished resumeRunning_ne_resumeFinished
        phase := ⟨rfl, haccepted⟩ }
  | @consume g entry rest hstack =>
    rw [hstack] at hshape hgens
    refine ⟨hshape, trivial, ?_⟩
    have hsingle := (hgens g).single
    have hcleared : (ponGenConsumePayload exceptions (m.generators g).frame).1.resumeState =
          (m.generators g).frame.resumeState ∧
        (ponGenConsumePayload exceptions (m.generators g).frame).1.sentValue = none ∧
        (ponGenConsumePayload exceptions (m.generators g).frame).1.thrownExc = none := by
      unfold ponGenConsumePayload
      cases hthrown : (m.generators g).frame.thrownExc with
      | none => exact ⟨rfl, rfl, rfl⟩
      | some exc => exact ⟨rfl, hsingle.resolve_right (by simp [hthrown]), rfl⟩
    have hrunning : (Phase.running true : Phase Gen Object).IsConsumed := trivial
    exact hgens.consume hrunning hcleared.1 hcleared.2.1 hcleared.2.2
  | @setSlot index value g entry phase rest hstack hphase =>
    rw [hstack] at hshape hgens
    have hset := hgens.setFrame fun hold ↦ hold.setSlots ((m.generators g).frame.slots.set index value)
    have htop (frame : GenFrame Object) : (m.setFrame g frame).stack = .body g entry phase :: rest :=
      hstack
    exact ⟨htop _ ▸ hshape, htop _ ▸ trivial, htop _ ▸ hset⟩
  | @delegate g entry consumed rest delegate hstack hkind =>
    rw [hstack] at hshape hgens
    refine Machine.delegateStep_inv hshape.1 hshape.2 hgens fun delegate hdelegate ↦ ?_
    have hcalled := notCalled_of_polls (hquiet delegate hdelegate)
    rw [hstack] at hcalled
    exact hcalled.tail
  | @leave _ g entry phase rest frame ending outcome hstack hleaves =>
    rw [hstack] at hshape hgens
    obtain ⟨hphase, hrunning, hempty, hsent, hthrown, hfinished⟩ := hleaves.frame_ok hgens.body
    exact Machine.leave_inv hphase hshape.1 hshape.2 hgens hrunning hempty (fun _ ↦ ⟨hsent, hthrown⟩)
      hfinished
  | @foreign _ g entry forward rest outcome hstack houtcome =>
    rw [hstack] at hshape hgens
    have hforeign : (Phase.foreign forward : Phase Gen Object).IsConsumed := trivial
    exact Machine.stepped_inv hforeign hshape.1 hshape.2 hgens

end Pon.Generator
