import Mathlib.Data.Fintype.Basic
import Pon.Sync.PythonLock

/-!
# Locks and stops

A thread parks when a poll finds a stop request, and it can make a poll while it holds an inner
mutex: on the way out of the region of a wait, and only there. As long as these polls find no request,
no holder of an inner mutex is parked in any of its calls, and a collector never waits for a thread
behind such a mutex. Without the condition three threads deadlock.
-/

namespace Pon.PythonLock

open Pon.Transition StopTheWorld

variable {T L : Type*}

/-! ## Parking -/

/-- None of the calls parks. -/
def Awake (frames : List (Frame T)) : Prop :=
  ∀ frame ∈ frames, parks frame = false

@[simp]
theorem awake_nil : Awake ([] : List (Frame T)) := by simp [Awake]

variable {frame : Frame T} {frames : List (Frame T)}

@[simp]
theorem awake_cons {below : List (Frame T)} :
    Awake (frame :: below) ↔ parks frame = false ∧ Awake below := by
  simp [Awake]

theorem Awake.tail (h : Awake frames) : Awake frames.tail :=
  fun frame hmem ↦ h frame (List.mem_of_mem_tail hmem)

/-- A stack is awake when its innermost call is and the calls below are. -/
theorem awake_of_head (hhead : frames.head? = some frame) (hframe : parks frame = false)
    (htail : Awake frames.tail) : Awake frames := by
  cases frames with
  | nil => simp
  | cons first below =>
    rw [List.head?_cons, Option.some_inj] at hhead
    subst hhead
    exact awake_cons.mpr ⟨hframe, htail⟩

section Moves

variable [DecidableEq T]

/-- The step reads a stop request in a poll, and the thread goes on to park. -/
def FindsRequest (s : StopTheWorld.State T) (t : T) (act : StopTheWorld.Act) : Prop :=
  (s.thread t).isCollecting = false ∧
    match act, (s.thread t).frames with
    | .advance, .poll .readFlag :: _ => s.gcStopRequested = true
    | .advance, .poll .readHandshake :: _ => s.handshake.stopRequested = true
    | _, _ => False

/-- A step exchanges the calls of one thread, and parks it only where it finds a request. -/
structure Moves (s s' : StopTheWorld.State T) (t : T) (act : StopTheWorld.Act) : Prop where
  other : ∀ u, u ≠ t → s'.thread u = s.thread u
  below : Awake (s.thread t).frames.tail → Awake (s'.thread t).frames.tail
  awake : Awake (s.thread t).frames → ¬ FindsRequest s t act → Awake (s'.thread t).frames
  length : (s.thread t).frames.length ≤ (s'.thread t).frames.length + 1

variable {act : StopTheWorld.Act} {frame : Frame T}

/-- It is enough to name the calls of the thread after the step. -/
theorem moves_of_update {s s' : StopTheWorld.State T} {t : T} (frames : List (Frame T))
    (gcSafeRegionDepth : ℕ)
    (hthread : s'.thread = Function.update s.thread t { frames, gcSafeRegionDepth })
    (hbelow : Awake (s.thread t).frames.tail → Awake frames.tail)
    (hawake : Awake (s.thread t).frames → ¬ FindsRequest s t act → Awake frames)
    (hlength : (s.thread t).frames.length ≤ frames.length + 1) : Moves s s' t act where
  other u hu := by rw [hthread, Function.update_of_ne hu]
  below := by rw [hthread, Function.update_self]; exact hbelow
  awake := by rw [hthread, Function.update_self]; exact hawake
  length := by rw [hthread, Function.update_self]; exact hlength

variable {s s' : StopTheWorld.State T} {t : T} {below : List (Frame T)} (gcSafeRegionDepth : ℕ)

section

variable (hframes : (s.thread t).frames = frame :: below)
include hframes

/-- The innermost call becomes another one that does not park. -/
theorem moves_of_replace {frame' : Frame T}
    (hthread : s'.thread = Function.update s.thread t ⟨frame' :: below, gcSafeRegionDepth⟩)
    (hframe : parks frame = true ∨ parks frame' = false ∨ FindsRequest s t act) :
    Moves s s' t act := by
  refine moves_of_update _ gcSafeRegionDepth hthread ?_ (fun hawake hnone ↦ ?_) (by simp [hframes])
  · simp [hframes]
  · rw [hframes, awake_cons] at hawake
    refine awake_cons.mpr ⟨?_, hawake.2⟩
    rcases hframe with hparked | hframe | hfinds
    · rw [hawake.1] at hparked
      cases hparked
    · exact hframe
    · exact absurd hfinds hnone

/-- The innermost call returns. -/
theorem moves_of_pop (hthread : s'.thread = Function.update s.thread t ⟨below, gcSafeRegionDepth⟩) :
    Moves s s' t act := by
  refine moves_of_update _ gcSafeRegionDepth hthread ?_ (fun hawake _ ↦ ?_) (by simp [hframes])
  · rw [hframes]
    exact Awake.tail
  · rw [hframes] at hawake
    exact hawake.tail

/-- The innermost call becomes another one, which makes a call. -/
theorem moves_of_push {inner outer : Frame T}
    (hthread : s'.thread = Function.update s.thread t ⟨inner :: outer :: below, gcSafeRegionDepth⟩)
    (hinner : parks inner = false) (houter : parks outer = false) : Moves s s' t act := by
  refine moves_of_update _ gcSafeRegionDepth hthread ?_ (fun hawake _ ↦ ?_) (by simp [hframes])
  · simp [hframes, houter]
  · rw [hframes] at hawake
    simpa [hinner, houter] using hawake.tail

end

variable {main : T}

theorem advancePoll_moves {stage : Poll} (hframes : (s.thread t).frames = .poll stage :: below)
    (hstep : advancePoll main s t below stage = some s') : Moves s s' t .advance := by
  cases stage with
  | signals =>
    simp only [advancePoll] at hstep
    split at hstep <;> cases hstep
    · exact moves_of_replace _ hframes rfl (Or.inr (Or.inl rfl))
    · exact moves_of_replace _ hframes rfl (Or.inr (Or.inl rfl))
  | handling signals =>
    cases signals with
    | nil =>
      cases hstep
      exact moves_of_replace _ hframes rfl (Or.inr (Or.inl rfl))
    | cons _ _ => cases hstep
  | readFlag =>
    simp only [advancePoll] at hstep
    split at hstep
    · rename_i hflag
      split at hstep <;> cases hstep
      · exact moves_of_pop _ hframes rfl
      · rename_i hcollecting
        refine moves_of_replace _ hframes rfl (Or.inr (Or.inr ⟨by simpa using hcollecting, ?_⟩))
        simp [hframes, hflag]
    · cases hstep
      exact moves_of_replace _ hframes rfl (Or.inr (Or.inl rfl))
  | readHandshake =>
    simp only [advancePoll] at hstep
    split at hstep <;> cases hstep
    · rename_i hrequest
      simp only [Bool.and_eq_true, Bool.not_eq_true'] at hrequest
      refine moves_of_replace _ hframes rfl (Or.inr (Or.inr ⟨hrequest.2, ?_⟩))
      simp [hframes, hrequest.1]
    · exact moves_of_pop _ hframes rfl
  | entering | acking =>
    cases hstep
    exact moves_of_replace _ hframes rfl (Or.inl rfl)
  | waiting =>
    simp only [advancePoll] at hstep
    split at hstep <;> cases hstep
    exact moves_of_replace _ hframes rfl (Or.inl rfl)
  | leaving =>
    cases hstep
    exact moves_of_pop _ hframes rfl

theorem advanceCollect_moves {stage : Collect T}
    (hframes : (s.thread t).frames = .collect stage :: below)
    (hstep : advanceCollect s t below stage = some s') : Moves s s' t act := by
  cases stage with
  | tryLock =>
    simp only [advanceCollect] at hstep
    split at hstep <;> cases hstep
    · exact moves_of_replace _ hframes rfl (Or.inr (Or.inl rfl))
    · exact moves_of_replace _ hframes rfl (Or.inr (Or.inl rfl))
  | blocked =>
    simp only [advanceCollect] at hstep
    split at hstep <;> cases hstep
    exact moves_of_replace _ hframes rfl (Or.inr (Or.inl rfl))
  | leaveBlocked =>
    cases hstep
    exact moves_of_push _ hframes rfl rfl rfl
  | pass records allStopped =>
    cases records with
    | nil =>
      cases allStopped <;> cases hstep
      · exact moves_of_replace _ hframes rfl (Or.inr (Or.inl rfl))
      · exact moves_of_replace _ hframes rfl (Or.inr (Or.inl rfl))
    | cons _ _ =>
      cases hstep
      exact moves_of_replace _ hframes rfl (Or.inr (Or.inl rfl))
  | unlock =>
    cases hstep
    exact moves_of_pop _ hframes rfl
  | enterBlocking | requestFlag | requestHandshake | startPass | gathering | collecting | resumeFlag
    | resumeHandshake =>
    cases hstep
    exact moves_of_replace _ hframes rfl (Or.inr (Or.inl rfl))

theorem endHandler_moves {signals signals' : List ℕ} {raises : Bool}
    (hframes : (s.thread t).frames = .poll (.handling signals') :: below ∨
      (s.thread t).frames = .mutator :: .poll (.handling signals') :: below) :
    Moves s (endHandler s t signals below raises) t act := by
  have htail : Awake (s.thread t).frames.tail → Awake below := by
    rcases hframes with hframes | hframes
    · rw [hframes]
      exact id
    · rw [hframes]
      exact Awake.tail
  have hlength (frame : Frame T) : (s.thread t).frames.length ≤ (frame :: below).length + 1 := by
    rcases hframes with hframes | hframes <;> simp [hframes]
  cases raises with
  | true =>
    refine moves_of_update (.poll .readFlag :: below) _ rfl htail (fun hawake _ ↦ ?_) (hlength _)
    exact awake_cons.mpr ⟨rfl, htail hawake.tail⟩
  | false =>
    refine moves_of_update (.poll (.handling signals) :: below) _ rfl htail (fun hawake _ ↦ ?_) (hlength _)
    exact awake_cons.mpr ⟨rfl, htail hawake.tail⟩

theorem step_moves (hstep : StopTheWorld.step main s t act = some s') : Moves s s' t act := by
  have hcases := step_cases hstep
  generalize hframes : (s.thread t).frames = frames at hcases
  cases hcases with
  | poll | collect | handler | finalizer => exact moves_of_push _ hframes rfl rfl rfl
  | enter hregion houtside =>
    refine moves_of_push _ hframes rfl ?_ ?_
    · rcases hregion with rfl | rfl <;> rfl
    · rcases houtside with rfl | rfl | rfl <;> rfl
  | leaveBlocking | abort => exact moves_of_replace _ hframes rfl (Or.inr (Or.inl rfl))
  | leaveSafe | finishFinalizer => exact moves_of_pop _ hframes rfl
  | advancePoll hstep => exact advancePoll_moves hframes hstep
  | advanceCollect hstep => exact advanceCollect_moves hframes hstep
  | noHandler => exact endHandler_moves (Or.inl hframes)
  | finishHandler => exact endHandler_moves (Or.inr hframes)
  | attach => exact moves_of_update _ _ rfl (fun _ ↦ by simp) (fun _ _ ↦ by simp [parks]) (by simp [hframes])
  | detach => exact moves_of_update _ _ rfl (fun _ ↦ by simp) (fun _ _ ↦ by simp) (by simp [hframes])
  | signal => exact ⟨fun _ _ ↦ rfl, id, fun hawake _ ↦ hawake, Nat.le_succ _⟩

end Moves

/-! ## Steps of operations -/

/-- The number of frames at which the operation was called. -/
def OpFrame.base (frame : OpFrame L) : ℕ :=
  match frame.stage with
  | .releasing | .waiting | .relocking | .leaving => frame.level - 1
  | _ => frame.level

theorem OpFrame.base_le (frame : OpFrame L) : frame.base ≤ frame.level := by
  unfold OpFrame.base
  split
  all_goals omega

section Operations

variable {main t : T} {s s' : State T L} {frame : OpFrame L} {rest : List (OpFrame L)}

/-- The operations of a thread, and the inner mutexes that it holds for them. -/
structure Calls (s : State T L) (t : T) : Prop where
  nested : (s.ops t).Pairwise fun inner outer ↦ outer.level < inner.base
  level : ∀ frame ∈ s.ops t, frame.level ≤ (s.frames t).length
  /-- Only on the way out of a wait does an operation call code that can poll. -/
  left : ∀ frame ∈ s.ops t, frame.level < (s.frames t).length → frame.stage = .left
  holder : ∀ object, (s.mutex object).holder = some t → ∃ frame ∈ s.ops t, frame.object = object

/-- Outside of the code of an operation, all operations have made a call. -/
theorem Calls.lt_of_not_inOp (h : Calls s t) (hout : s.inOp t = false) :
    ∀ frame ∈ s.ops t, frame.level < (s.frames t).length := by
  have hlevel := h.level
  have hnested := h.nested
  unfold State.inOp at hout
  cases hops : s.ops t with
  | nil => simp
  | cons first rest =>
    rw [hops] at hout hlevel hnested
    have hfirst : first.level < (s.frames t).length :=
      lt_of_le_of_ne (hlevel first List.mem_cons_self) (of_decide_eq_false hout)
    refine List.forall_mem_cons.mpr ⟨hfirst, fun frame hmem ↦ ?_⟩
    have := (List.pairwise_cons.mp hnested).1 frame hmem
    have := first.base_le
    omega

/-- A poll with an inner mutex in hand is one on the way out of a wait. -/
theorem Calls.leavesWait (h : Calls s t) (hout : s.inOp t = false)
    (hholder : ∃ object, (s.mutex object).holder = some t) : LeavesWait s t := by
  obtain ⟨object, hholder⟩ := hholder
  obtain ⟨frame, hmem, -⟩ := h.holder object hholder
  have hlt := h.lt_of_not_inOp hout frame hmem
  exact ⟨frame, hmem, h.left frame hmem hlt, hlt⟩

theorem Calls.congr (h : Calls s t) (hops : s'.ops t = s.ops t) (hframes : s'.frames t = s.frames t)
    (hholder : ∀ object, (s'.mutex object).holder = some t → (s.mutex object).holder = some t) :
    Calls s' t where
  nested := hops ▸ h.nested
  level := by rw [hops, hframes]; exact h.level
  left := by rw [hops, hframes]; exact h.left
  holder object hu := hops ▸ h.holder object (hholder object hu)

/-- The innermost operation, above others that have all made a call. -/
theorem Calls.of_cons (hops : s'.ops t = frame :: rest)
    (hnested : rest.Pairwise fun inner outer ↦ outer.level < inner.base)
    (hrest : ∀ outer ∈ rest, outer.level < frame.base ∧ outer.stage = .left)
    (hlevel : frame.level = (s'.frames t).length ∨ frame.level ≤ (s'.frames t).length ∧ frame.stage = .left)
    (hholder : ∀ object, (s'.mutex object).holder = some t → ∃ called ∈ frame :: rest, called.object = object) :
    Calls s' t where
  nested := by
    rw [hops]
    exact List.pairwise_cons.mpr ⟨fun outer hmem ↦ (hrest outer hmem).1, hnested⟩
  level := by
    have hle : frame.level ≤ (s'.frames t).length := hlevel.elim (·.le) (·.1)
    rw [hops]
    exact List.forall_mem_cons.mpr ⟨hle, fun outer hmem ↦
      (hrest outer hmem).1.le.trans (frame.base_le.trans hle)⟩
  left := by
    rw [hops]
    exact List.forall_mem_cons.mpr ⟨fun hlt ↦ (hlevel.resolve_left hlt.ne).2,
      fun outer hmem _ ↦ (hrest outer hmem).2⟩
  holder := hops ▸ hholder

/-- A holder after the mutex has been taken or given back. -/
theorem holder_update [DecidableEq L] {object other : L} {inner : InnerMutex T} {u : T}
    (h : (Function.update s.mutex object inner other).holder = some u) :
    inner.holder = some u ∧ other = object ∨ (s.mutex other).holder = some u ∧ other ≠ object := by
  by_cases same : other = object
  · rw [same, Function.update_self] at h
    exact .inl ⟨h, same⟩
  · rw [Function.update_of_ne same] at h
    exact .inr ⟨h, same⟩

variable [DecidableEq T]

/-- What the next step of an operation can do. -/
inductive RunCases (main : T) (s s' : State T L) (t : T) (frame : OpFrame L) (rest : List (OpFrame L)) : Prop
  | finish (gc : s'.gc = s.gc) (ops : s'.ops = Function.update s.ops t rest)
      (holder : ∀ object u, (s'.mutex object).holder = some u →
        (s.mutex object).holder = some u ∧ object ≠ frame.object)
  | next (frame' : OpFrame L) (gc : s'.gc = s.gc) (ops : s'.ops = Function.update s.ops t (frame' :: rest))
      (same : frame'.object = frame.object ∧ frame'.base = frame.base ∧ frame'.level = frame.level)
      (holder : ∀ object u, (s'.mutex object).holder = some u →
        (s.mutex object).holder = some u ∨ u = t ∧ object = frame.object)
  | call (frame' : OpFrame L) {act : StopTheWorld.Act} (gc : StopTheWorld.step main s.gc t act = some s'.gc)
      (notAdvance : act ≠ .advance) (ops : s'.ops = Function.update s.ops t (frame' :: rest))
      (same : frame'.object = frame.object ∧ frame'.base = frame.base)
      (level : frame.level = (s.frames t).length → frame'.level = (s'.frames t).length ∨
        frame'.level ≤ (s'.frames t).length ∧ frame'.stage = .left)
      (mutex : s'.mutex = s.mutex)

theorem length_enterBlocking {gc gc' : StopTheWorld.State T}
    (h : StopTheWorld.step main gc t .enterBlocking = some gc') :
    (gc'.thread t).frames.length = (gc.thread t).frames.length + 1 := by
  have hcases := step_cases h
  generalize hframes : (gc.thread t).frames = frames at hcases ⊢
  cases hcases
  simp [StopTheWorld.State.enterRegion]

theorem length_leaveBlocking {gc gc' : StopTheWorld.State T}
    (h : StopTheWorld.step main gc t .leaveBlocking = some gc') :
    (gc.thread t).frames.length ≤ (gc'.thread t).frames.length := by
  have hcases := step_cases h
  generalize hframes : (gc.thread t).frames = frames at hcases ⊢
  cases hcases <;> simp [StopTheWorld.State.enterRegion, StopTheWorld.State.leaveRegion]

/-- A step of the innermost operation keeps the operations of its thread. -/
theorem Calls.run (h : Calls s t) (hops : s.ops t = frame :: rest)
    (hlevel : frame.level = (s.frames t).length) (hcases : RunCases main s s' t frame rest) :
    Calls s' t := by
  obtain ⟨hnested, hle, hleft, hholder⟩ := h
  rw [hops] at hnested hle hleft hholder
  rw [List.pairwise_cons] at hnested
  have hrest (outer : OpFrame L) (hmem : outer ∈ rest) : outer.level < frame.base ∧ outer.stage = .left := by
    have hlt := hnested.1 outer hmem
    exact ⟨hlt, hleft outer (List.mem_cons_of_mem _ hmem) (hlevel ▸ hlt.trans_le frame.base_le)⟩
  have hkept {frame' : OpFrame L} (hsame : frame'.object = frame.object) {object : L}
      (hu : (s.mutex object).holder = some t ∨ object = frame.object) :
      ∃ called ∈ frame' :: rest, called.object = object := by
    obtain hu | rfl := hu
    · obtain ⟨outer, hmem, rfl⟩ := hholder object hu
      rcases List.mem_cons.mp hmem with rfl | hmem
      · exact ⟨frame', List.mem_cons_self, hsame⟩
      · exact ⟨outer, List.mem_cons_of_mem _ hmem, rfl⟩
    · exact ⟨frame', List.mem_cons_self, hsame⟩
  cases hcases with
  | finish gc ops holder =>
    have hops' : s'.ops t = rest := by rw [ops, Function.update_self]
    have hframes : s'.frames t = s.frames t := by rw [State.frames, State.frames, gc]
    refine ⟨hops' ▸ hnested.2, ?_, ?_, fun object hu ↦ ?_⟩
    · rw [hops', hframes]
      exact fun outer hmem ↦ hle outer (List.mem_cons_of_mem _ hmem)
    · rw [hops']
      exact fun outer hmem _ ↦ (hrest outer hmem).2
    · obtain ⟨hu, hne⟩ := holder object t hu
      obtain ⟨outer, hmem, rfl⟩ := hholder object hu
      rcases List.mem_cons.mp hmem with rfl | hmem
      · exact absurd rfl hne
      · exact ⟨outer, hops' ▸ hmem, rfl⟩
  | next frame' gc ops same holder =>
    obtain ⟨hobject, hbase, hlevel'⟩ := same
    have hframes : s'.frames t = s.frames t := by rw [State.frames, State.frames, gc]
    refine .of_cons (by rw [ops, Function.update_self]) hnested.2 (hbase ▸ hrest)
      (.inl (by rw [hlevel', hlevel, hframes])) fun object hu ↦ hkept hobject ?_
    exact (holder object t hu).imp_right And.right
  | call frame' gc notAdvance ops same level mutex =>
    refine .of_cons (by rw [ops, Function.update_self]) hnested.2 (same.2 ▸ hrest) (level hlevel)
      fun object hu ↦ hkept same.1 (.inl (mutex ▸ hu))

theorem runOp_cases [DecidableEq L] {expired : Bool} (hstep : runOp main s t expired frame rest = some s') :
    RunCases main s s' t frame rest := by
  unfold runOp at hstep
  cases hstage : frame.stage with
  | locking | relocking =>
    simp only [hstage] at hstep
    split at hstep <;> cases hstep
    refine .next _ rfl rfl ⟨rfl, by simp [OpFrame.base, hstage], rfl⟩ fun object u hu ↦ ?_
    obtain ⟨htaken, hobject⟩ | ⟨hold, -⟩ := holder_update hu
    · exact .inr ⟨(Option.some.inj htaken).symm, hobject⟩
    · exact .inl hold
  | body again =>
    simp only [hstage] at hstep
    split at hstep <;> cases hstep
    · exact .next _ rfl rfl ⟨rfl, by simp [OpFrame.base, hstage], rfl⟩ fun _ _ ↦ .inl
    · refine .finish rfl rfl fun object u hu ↦ ?_
      obtain ⟨hnone, -⟩ | hold := holder_update hu
      · cases hnone
      · exact hold
  | entering =>
    simp only [hstage] at hstep
    obtain ⟨gc, hgc, rfl⟩ := Option.map_eq_some_iff.mp hstep
    refine .call _ hgc (by decide) rfl ⟨rfl, by simp [OpFrame.base, hstage]⟩ (fun hlevel ↦ .inl ?_) rfl
    exact (congrArg (· + 1) hlevel).trans (length_enterBlocking hgc).symm
  | releasing =>
    simp only [hstage] at hstep
    cases hstep
    refine .next _ rfl rfl ⟨rfl, by simp [OpFrame.base, hstage], rfl⟩ fun object u hu ↦ ?_
    obtain ⟨hnone, -⟩ | ⟨hold, -⟩ := holder_update hu
    · cases hnone
    · exact .inl hold
  | waiting | left =>
    simp only [hstage] at hstep
    cases hstep
    exact .next _ rfl rfl ⟨rfl, by simp [OpFrame.base, hstage], rfl⟩ fun _ _ ↦ .inl
  | leaving =>
    simp only [hstage] at hstep
    obtain ⟨gc, hgc, rfl⟩ := Option.map_eq_some_iff.mp hstep
    refine .call _ hgc (by decide) rfl ⟨rfl, by simp [OpFrame.base, hstage]⟩
      (fun hlevel ↦ .inr ⟨?_, rfl⟩) rfl
    exact (Nat.sub_le _ _).trans (hlevel.trans_le (length_leaveBlocking hgc))

end Operations

/-! ## Invariant -/

/-- A call that parks is innermost, and no holder of an inner mutex is in one. -/
structure Inv (s : State T L) : Prop where
  below : ∀ t, Awake (s.frames t).tail
  holder : ∀ object t, (s.mutex object).holder = some t → Awake (s.frames t)
  calls : ∀ t, Calls s t

variable {s : State T L}

theorem Inv.noParkedHolder (h : Inv s) : NoParkedHolder s := by
  rintro object holder hholder ⟨frame, below, hframes, hparks⟩
  have hawake := h.holder object holder hholder
  rw [hframes, awake_cons, hparks] at hawake
  cases hawake.1

theorem NoParkedHolder.not_deadlocked (h : NoParkedHolder s) : ¬ Deadlocked s := by
  rintro ⟨_, _, holder, object, _, _, _, _, hholder, hparked⟩
  exact h object holder hholder hparked

theorem inv_of_initial (h : Initial s) : Inv s where
  below t := by
    have hthread : s.gc.thread t = ⟨[.mutator], 0⟩ ∨ s.gc.thread t = ⟨[], 0⟩ := by
      by_cases ht : t ∈ s.gc.registry
      · exact Or.inl (h.gc.attached t ht)
      · exact Or.inr (h.gc.detached t ht)
    rcases hthread with hthread | hthread <;> simp [State.frames, hthread]
  holder object t hholder := by
    rw [h.unlocked object] at hholder
    cases hholder
  calls t := by
    constructor <;> simp [h.ops, h.unlocked]

section Preservation

variable {s s' : State T L} {t : T}

/-- A step that leaves the calls of the threads alone; a new holder of a mutex is awake. -/
theorem Inv.keepFrames (h : Inv s) (hgc : s'.gc = s.gc)
    (hholder : ∀ object u, (s'.mutex object).holder = some u →
      (s.mutex object).holder = some u ∨ Awake (s.frames u)) (hcalls : ∀ t, Calls s' t) : Inv s' := by
  have hframes : s'.frames = s.frames := by
    funext u
    rw [State.frames, State.frames, hgc]
  refine ⟨fun u ↦ ?_, fun object u hu ↦ ?_, hcalls⟩
  · rw [hframes]
    exact h.below u
  · rw [hframes]
    rcases hholder object u hu with hold | hawake
    · exact h.holder object u hold
    · exact hawake

variable [DecidableEq T]

variable {main : T}

variable {act : StopTheWorld.Act}

/-- A step of the handshake, which leaves the inner mutexes alone. -/
theorem Inv.gcStep (h : Inv s) {gc : StopTheWorld.State T}
    (hstep : StopTheWorld.step main s.gc t act = some gc) (hgc : s'.gc = gc)
    (hmutex : s'.mutex = s.mutex)
    (hrequest : (∃ object, (s.mutex object).holder = some t) → ¬ FindsRequest s.gc t act)
    (hcalls : ∀ t, Calls s' t) : Inv s' := by
  have hmoves := step_moves hstep
  have hself : s'.frames t = (gc.thread t).frames := by rw [State.frames, hgc]
  have hother : ∀ u, u ≠ t → s'.frames u = s.frames u := fun u hu ↦ by
    rw [State.frames, hgc, hmoves.other u hu, State.frames]
  refine ⟨fun u ↦ ?_, fun object u hholder ↦ ?_, hcalls⟩
  · by_cases hu : u = t
    · subst hu
      rw [hself]
      exact hmoves.below (h.below u)
    · rw [hother u hu]
      exact h.below u
  · rw [hmutex] at hholder
    by_cases hu : u = t
    · subst hu
      rw [hself]
      exact hmoves.awake (h.holder object u hholder) (hrequest ⟨object, hholder⟩)
    · rw [hother u hu]
      exact h.holder object u hholder

theorem not_findsRequest (hreads : ReadsNoRequest s (t, .gc act)) (hleaves : LeavesWait s t) :
    ¬ FindsRequest s.gc t act := by
  rintro ⟨hcollecting, hfinds⟩
  rcases hreads hleaves with hyes | hreads
  · rw [hyes] at hcollecting
    cases hcollecting
  · simp only [State.frames] at hreads
    split at hfinds <;> simp_all

/-- A step of the handshake, outside of the operations. -/
theorem Inv.gcCalls (h : Inv s) (hout : s.inOp t = false) {gc : StopTheWorld.State T}
    (hstep : StopTheWorld.step main s.gc t act = some gc) (u : T) : Calls { s with gc } u := by
  have hmoves := step_moves hstep
  by_cases hu : u = t
  · subst hu
    have hlt := (h.calls u).lt_of_not_inOp hout
    refine ⟨(h.calls u).nested, fun frame hmem ↦ ?_, fun frame hmem _ ↦ ?_, (h.calls u).holder⟩
    · exact Nat.le_of_lt_succ ((hlt frame hmem).trans_le hmoves.length)
    · exact (h.calls u).left frame hmem (hlt frame hmem)
  · exact (h.calls u).congr rfl (congrArg Thread.frames (hmoves.other u hu)) fun _ ↦ id

variable [DecidableEq L]

theorem runOp_inv {expired : Bool} {frame : OpFrame L} {rest : List (OpFrame L)} (h : Inv s)
    (hops : s.ops t = frame :: rest) (hlevel : frame.level = (s.frames t).length)
    (hhead : (s.frames t).head? = some (frame.stage.frame T))
    (hstep : runOp main s t expired frame rest = some s') : Inv s' := by
  have hcases := runOp_cases hstep
  have hself : Calls s' t := (h.calls t).run hops hlevel hcases
  have hcalls (hother : ∀ u, u ≠ t → s'.ops u = s.ops u ∧ s'.frames u = s.frames u ∧
      ∀ object, (s'.mutex object).holder = some u → (s.mutex object).holder = some u) (u : T) :
      Calls s' u := by
    by_cases hu : u = t
    · exact hu ▸ hself
    · obtain ⟨hops, hframes, hholder⟩ := hother u hu
      exact (h.calls u).congr hops hframes hholder
  cases hcases with
  | finish gc ops holder =>
    refine h.keepFrames gc (fun object u hu ↦ .inl (holder object u hu).1) (hcalls fun u hne ↦ ?_)
    exact ⟨by rw [ops, Function.update_of_ne hne], by rw [State.frames, State.frames, gc],
      fun object hu ↦ (holder object u hu).1⟩
  | next frame' gc ops same holder =>
    have hawake : Awake (s.frames t) := by
      refine awake_of_head hhead ?_ (h.below t)
      cases frame.stage <;> rfl
    refine h.keepFrames gc (fun object u hu ↦ ?_) (hcalls fun u hne ↦ ?_)
    · exact (holder object u hu).imp_right fun ⟨hself, _⟩ ↦ hself ▸ hawake
    · exact ⟨by rw [ops, Function.update_of_ne hne], by rw [State.frames, State.frames, gc],
        fun object hu ↦ (holder object u hu).resolve_right fun hself ↦ hne hself.1⟩
  | call frame' gc notAdvance ops same level mutex =>
    refine h.gcStep gc rfl mutex (fun _ ⟨_, hfinds⟩ ↦ ?_) (hcalls fun u hne ↦ ?_)
    · split at hfinds
      · exact notAdvance rfl
      · exact notAdvance rfl
      · exact hfinds
    · refine ⟨by rw [ops, Function.update_of_ne hne], ?_, fun object hu ↦ mutex ▸ hu⟩
      rw [State.frames, (step_moves gc).other u hne, State.frames]

theorem step_gc (hstep : step main s t (.gc act) = some s') :
    ∃ gc, StopTheWorld.step main s.gc t act = some gc ∧ s' = { s with gc } ∧
      (s.inOp t = false ∨ ∃ signalnum, act = .signal signalnum) := by
  unfold step at hstep
  split at hstep
  case h_1 heq =>
    cases heq
    obtain ⟨gc, hgc, rfl⟩ := Option.map_eq_some_iff.mp hstep
    exact ⟨gc, hgc, rfl, .inr ⟨_, rfl⟩⟩
  case h_2 heq =>
    cases heq
    split at hstep
    · cases hstep
    · next hout =>
      obtain ⟨gc, hgc, rfl⟩ := Option.map_eq_some_iff.mp hstep
      exact ⟨gc, hgc, rfl, .inl (by simpa using hout)⟩
  case h_3 heq => cases heq
  case h_4 heq => cases heq

/-- One step that finds no request on the way out of a wait keeps the invariant. -/
theorem step_inv {act : Act L} (h : Inv s) (hreads : ReadsNoRequest s (t, act))
    (hstep : step main s t act = some s') : Inv s' := by
  cases act with
  | gc act =>
    obtain ⟨gc, hgc, rfl, hout | ⟨signalnum, rfl⟩⟩ := step_gc hstep
    · exact h.gcStep hgc rfl rfl
        (fun hholder ↦ not_findsRequest hreads ((h.calls t).leavesWait hout hholder)) (h.gcCalls hout hgc)
    · have hnone : ¬ FindsRequest s.gc t (.signal signalnum) := fun hfinds ↦ hfinds.2
      refine h.gcStep hgc rfl rfl (fun _ ↦ hnone) fun u ↦ (h.calls u).congr rfl ?_ fun _ ↦ id
      cases hgc
      rfl
  | call op object =>
    simp only [step] at hstep
    split at hstep <;> cases hstep
    next hcalled =>
    simp only [Bool.and_eq_true, Bool.not_eq_true'] at hcalled
    refine h.keepFrames rfl (fun _ _ ↦ .inl) fun u ↦ ?_
    by_cases hu : u = t
    · subst hu
      have hlt := (h.calls u).lt_of_not_inOp hcalled.1
      refine Calls.of_cons (Function.update_self _ _ _) (h.calls u).nested
        (fun outer hmem ↦ ⟨hlt outer hmem, (h.calls u).left outer hmem (hlt outer hmem)⟩) (.inl rfl)
        fun object hholder ↦ ?_
      obtain ⟨called, hmem, hobject⟩ := (h.calls u).holder object hholder
      exact ⟨called, List.mem_cons_of_mem _ hmem, hobject⟩
    · exact (h.calls u).congr (Function.update_of_ne hu _ _) rfl fun _ ↦ id
  | run expired =>
    simp only [step] at hstep
    split at hstep
    · cases hstep
    · next frame rest hops =>
      split at hstep
      · next hcode =>
        rw [Bool.and_eq_true, decide_eq_true_eq, State.inOp, hops, decide_eq_true_eq] at hcode
        exact runOp_inv h hops hcode.1 hcode.2 hstep
      · cases hstep

end Preservation

/-- In every run in which no poll on the way out of a wait finds a stop request, no thread is parked with
an inner mutex, and no collector waits for a thread behind one. -/
theorem no_parked_holder [DecidableEq T] [DecidableEq L] (main : T) (s : State T L)
    (h : Reachable Initial ReadsNoRequest (Step main) s) : NoParkedHolder s ∧ ¬ Deadlocked s := by
  have hinv : Inv s := h.invariant Inv (fun _ hinit ↦ inv_of_initial hinit)
    fun _ _ _ hinv hreads hstep ↦ step_inv hinv hreads hstep
  exact ⟨hinv.noParkedHolder, hinv.noParkedHolder.not_deadlocked⟩

/-! ## The window -/

/-- Attached threads and one unlocked `Lock`. -/
def start (registry : List ℕ) : State ℕ Unit where
  gc := StopTheWorld.start registry
  ops _ := []
  mutex _ := { holder := none, data := .lock false }
  returned _ := none

theorem initial_start (registry : List ℕ) : Initial (start registry) where
  gc := StopTheWorld.initial_start registry
  ops _ := rfl
  unlocked _ := rfl

instance (s : State ℕ Unit) (label : ℕ × Act Unit) : Decidable (ReadsNoRequest s label) := by
  unfold ReadsNoRequest LeavesWait
  split <;> infer_instance

/-- Thread 1 takes the lock, thread 2 waits for it, and thread 1 gives it back. -/
def contendedLabels : List (ℕ × Act Unit) :=
  [(1, .call .acquire ()), (1, .run false), (1, .run false), (2, .call .acquire ()),
    (2, .run false), (2, .run false), (2, .run false), (2, .run false), (1, .call .release ()),
    (1, .run false), (1, .run false)]

/-- Thread 0 starts a collection and sets the flag and the request. -/
def requestLabels : List (ℕ × Act Unit) :=
  [(0, .gc .collect), (0, .gc .advance), (0, .gc .advance), (0, .gc .advance)]

/-- Thread 2 wakes up, takes the inner mutex, leaves its region and polls up to the first flag. -/
def wakeLabels : List (ℕ × Act Unit) :=
  [(2, .run false), (2, .run false), (2, .run false), (2, .gc .advance), (2, .gc .advance)]

/-- Thread 2 wakes up before the request and takes the lock; thread 1 polls after it. -/
def quietLabels : List (ℕ × Act Unit) :=
  contendedLabels ++ wakeLabels ++ [(2, .gc .advance), (2, .run false), (2, .run false)] ++
    requestLabels ++ [(1, .gc .poll), (1, .gc .advance), (1, .gc .advance)]

/-- Thread 2 wakes up after the request, and thread 1 calls `acquire` again. -/
def stuckLabels : List (ℕ × Act Unit) :=
  contendedLabels ++ requestLabels ++ wakeLabels ++ [(1, .call .acquire ())]

theorem no_parked_holder_quiet :
    ∃ s, runLabels (fun s label ↦ decide (ReadsNoRequest s label))
        (fun s label ↦ step 0 s label.1 label.2) (start [0, 1, 2]) quietLabels = some s ∧
      s.returned 2 = some .unit ∧ s.frames 1 = [.poll .entering, .mutator] ∧
        NoParkedHolder s ∧ ¬ Deadlocked s := by
  let run := runLabels (fun s label ↦ decide (ReadsNoRequest s label))
    (fun s label ↦ step 0 s label.1 label.2) (start [0, 1, 2]) quietLabels
  have hfinal : run.map (fun s ↦ (s.returned 2, s.frames 1)) =
      some (some .unit, [.poll .entering, .mutator]) := by decide
  obtain ⟨s, hrun, hfinal⟩ := Option.map_eq_some_iff.mp hfinal
  rw [Prod.mk.injEq] at hfinal
  have hreachable : Reachable Initial ReadsNoRequest (Step 0) s :=
    Reachable.runLabels (fun _ _ h ↦ by simpa using h) (.start (initial_start _)) hrun
  exact ⟨s, hrun, hfinal.1, hfinal.2, no_parked_holder 0 s hreachable⟩

/-- Without the condition thread 0 waits for thread 1, thread 1 for the inner mutex of thread 2, and
thread 2 for thread 0. -/
theorem lock_deadlock :
    ¬ ∀ (main : ℕ) (s : State ℕ Unit),
      Reachable Initial (fun _ _ ↦ True) (Step main) s → NoParkedHolder s ∧ ¬ Deadlocked s := by
  intro hall
  let run := runLabels (fun _ _ ↦ true) (fun s label ↦ step 0 s label.1 label.2)
    (start [0, 1, 2]) stuckLabels
  have hstop : run.map (fun s ↦ (s.gc.registry, s.frames 0, s.frames 2)) =
      some ([0, 1, 2], [.collect .startPass, .mutator], [.poll .entering, .mutator]) := by
    decide
  have hlock : run.map (fun s ↦ ((s.mutex ()).holder, (s.gc.thread 1).gcSafeRegionDepth,
      s.inOp 1, s.ops 1)) = some (some 2, 0, true, [⟨.acquire, (), .locking, 1⟩]) := by
    decide
  obtain ⟨s, hrun, hstop⟩ := Option.map_eq_some_iff.mp hstop
  rw [hrun, Option.map_some, Option.some_inj] at hlock
  simp only [Prod.mk.injEq] at hstop hlock
  obtain ⟨hregistry, hcollector, hparked⟩ := hstop
  obtain ⟨hholder, hdepth, hinOp, hops⟩ := hlock
  have hreachable : Reachable Initial (fun _ _ ↦ True) (Step 0) s :=
    Reachable.runLabels (fun _ _ _ ↦ trivial) (.start (initial_start _)) hrun
  refine (hall 0 s hreachable).2 ⟨0, 1, 2, (), ⟨_, _, hcollector, Or.inl rfl⟩, by decide,
    by simp [hregistry], ⟨hdepth, hinOp, _, _, hops, rfl, rfl, by simp [hholder]⟩, hholder, ?_⟩
  exact ⟨_, _, hparked, rfl⟩

end Pon.PythonLock
