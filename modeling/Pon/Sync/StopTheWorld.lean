import Mathlib.Algebra.GroupWithZero.Nat
import Mathlib.Algebra.Order.BigOperators.Group.List
import Pon.Sync.Handshake

/-!
# Stop-the-world exclusion

The invariant follows the lock on collections. Its holder determines both flags by the stage of its
call, and every thread that the holder has counted as stopped stays in a wait or in a poll: a poll
that starts under a stop request parks, and the steps that leave a region for mutator code without
a look at the request are excluded by the guard. Without the guard the exclusion fails.
-/

namespace Pon.StopTheWorld

open Pon.Transition

variable {T : Type*}

/-! ## Shape of the stacks -/

/-- The number of GC-safe regions that the call keeps open. -/
def Frame.region : Frame T → ℕ
  | .blocking | .safe => 1
  | .poll .acking | .poll .waiting | .poll .leaving => 1
  | .collect .blocked | .collect .leaveBlocked => 1
  | _ => 0

def regionDepth (frames : List (Frame T)) : ℕ :=
  (frames.map Frame.region).sum

@[simp]
theorem regionDepth_nil : regionDepth ([] : List (Frame T)) = 0 := rfl

@[simp]
theorem regionDepth_cons (frame : Frame T) (below : List (Frame T)) :
    regionDepth (frame :: below) = frame.region + regionDepth below := by
  simp [regionDepth]

/-- The stage of a call of `collect` that holds the lock on collections. -/
def Frame.lockStage : Frame T → Option (Collect T)
  | .collect .tryLock | .collect .enterBlocking | .collect .blocked => none
  | .collect stage => some stage
  | _ => none

def lockStages (frames : List (Frame T)) : List (Collect T) :=
  frames.filterMap Frame.lockStage

@[simp]
theorem lockStages_nil : lockStages ([] : List (Frame T)) = [] := rfl

@[simp]
theorem lockStages_cons (frame : Frame T) (below : List (Frame T)) :
    lockStages (frame :: below) = frame.lockStage.toList ++ lockStages below := by
  rw [lockStages, List.filterMap_cons]
  cases frame.lockStage <;> rfl

/-- Calls that are only made outside of every region, unless the collector makes them. -/
def Frame.outside : Frame T → Bool
  | .mutator | .collect _ => true
  | _ => false

/-- No region is open below a call that is made outside of them. -/
def Orderly : List (Frame T) → Prop
  | [] => True
  | frame :: below =>
    (frame.outside = true → lockStages below ≠ [] ∨ regionDepth below = 0) ∧ Orderly below

/-- Calls in which a thread counts as stopped. -/
def Frame.isStopped : Frame T → Bool
  | .blocking | .safe | .poll _ | .collect .blocked => true
  | _ => false

def Stopped (frames : List (Frame T)) : Prop :=
  ∃ frame below, frames = frame :: below ∧ frame.isStopped = true

@[simp]
theorem stopped_cons {frame : Frame T} {below : List (Frame T)} :
    Stopped (frame :: below) ↔ frame.isStopped = true := by
  constructor
  · rintro ⟨_, _, heq, h⟩
    cases heq
    exact h
  · intro h
    exact ⟨frame, below, rfl, h⟩

/-- An open region in an orderly stack without the lock means that the thread is stopped. -/
theorem stopped_of_region {frames : List (Frame T)} (horderly : Orderly frames)
    (hlock : lockStages frames = []) (hregion : regionDepth frames ≠ 0) : Stopped frames := by
  cases frames with
  | nil => simp at hregion
  | cons frame below =>
    rw [stopped_cons]
    rw [lockStages_cons, List.append_eq_nil_iff] at hlock
    rw [regionDepth_cons] at hregion
    have hzero : frame.outside = true → regionDepth below = 0 := fun hout ↦
      (horderly.1 hout).resolve_left (not_not.mpr hlock.2)
    cases frame with
    | mutator => simp [Frame.region, hzero rfl] at hregion
    | blocking => rfl
    | safe => rfl
    | poll stage => rfl
    | collect stage =>
      have hstage := hlock.1
      cases stage <;> simp_all [Frame.region, Frame.lockStage, Frame.isStopped, Frame.outside]

/-! ## Invariant -/

/-- `GC_STOP_REQUESTED` at the stage of the holder. -/
def Collect.flagSet : Collect T → Bool
  | .requestHandshake | .startPass | .pass _ _ | .gathering | .collecting | .resumeFlag => true
  | _ => false

/-- The stop request of the handshake at the stage of the holder. -/
def Collect.requestSet : Collect T → Bool
  | .startPass | .pass _ _ | .gathering | .collecting | .resumeFlag | .resumeHandshake => true
  | _ => false

/-- The threads that the holder counts as stopped. -/
def Collect.Counts (t : T) : Collect T → Prop
  | .pass records allStopped => allStopped = true ∧ t ∉ records
  | stage => stage.inWindow = true

/-- What holds while `c` has the lock and its call is at `stage`. -/
structure Held (s : State T) (c : T) (stage : Collect T) : Prop where
  stages : lockStages (s.thread c).frames = [stage]
  flag : s.gcStopRequested = stage.flagSet
  request : s.handshake.stopRequested = stage.requestSet
  stopped : ∀ t ∈ s.registry, t ≠ c → stage.Counts t → Stopped (s.thread t).frames

structure Inv (s : State T) : Prop where
  depth : ∀ t, (s.thread t).gcSafeRegionDepth = regionDepth (s.thread t).frames
  orderly : ∀ t, Orderly (s.thread t).frames
  unlocked : ∀ t, s.collectMutex ≠ some t → lockStages (s.thread t).frames = []
  free : s.collectMutex = none → s.gcStopRequested = false ∧ s.handshake.stopRequested = false
  held : ∀ c, s.collectMutex = some c → ∃ stage, Held s c stage

theorem inv_of_initial {s : State T} (h : Initial s) : Inv s := by
  have hthread : ∀ t, s.thread t = ⟨[.mutator], 0⟩ ∨ s.thread t = ⟨[], 0⟩ := fun t ↦ by
    by_cases ht : t ∈ s.registry
    · exact Or.inl (h.attached t ht)
    · exact Or.inr (h.detached t ht)
  refine ⟨fun t ↦ ?_, fun t ↦ ?_, fun t _ ↦ ?_, fun _ ↦ ⟨h.gcStopRequested, ?_⟩, fun c hc ↦ ?_⟩
  · rcases hthread t with ht | ht <;> rw [ht] <;> rfl
  · rcases hthread t with ht | ht <;> rw [ht] <;> simp [Orderly]
  · rcases hthread t with ht | ht <;> rw [ht] <;> rfl
  · rw [h.handshake]
    rfl
  · rw [h.collectMutex] at hc
    cases hc

/-- Every thread in the registry but the collector is stopped in its window. -/
theorem Inv.excluded {s : State T} (h : Inv s) : Excluded s := by
  rintro c t ⟨stage, hmem, hwindow⟩ ht hne hexec
  have hstage : stage ∈ lockStages (s.thread c).frames := by
    refine List.mem_filterMap.mpr ⟨_, hmem, ?_⟩
    cases stage <;> simp_all [Collect.inWindow, Frame.lockStage]
  have hmutex : s.collectMutex = some c := by
    by_contra hother
    rw [h.unlocked c hother] at hstage
    exact absurd hstage List.not_mem_nil
  obtain ⟨stage', hheld⟩ := h.held c hmutex
  rw [hheld.stages, List.mem_singleton] at hstage
  subst hstage
  have hcounts : stage.Counts t := by
    cases stage <;> simp_all [Collect.inWindow, Collect.Counts]
  obtain ⟨frame, below, hframes, hstopped⟩ := hheld.stopped t ht hne hcounts
  rw [ExecutesMutator, hframes, List.head?_cons, Option.some_inj] at hexec
  rw [hexec] at hstopped
  cases hstopped

section Preservation

variable [DecidableEq T] {s s' : State T} {t : T}

variable {thread : Thread T} {frames below : List (Frame T)} {stage : Collect T}

/-- A step of one thread leaves the others alone. -/
theorem Inv.threads (h : Inv s) (hthread : s'.thread = Function.update s.thread t thread)
    (hdepth : thread.gcSafeRegionDepth = regionDepth thread.frames)
    (horderly : Orderly thread.frames) : s'.thread t = thread ∧
      (∀ u, u ≠ t → s'.thread u = s.thread u) ∧
      (∀ u, (s'.thread u).gcSafeRegionDepth = regionDepth (s'.thread u).frames) ∧
      ∀ u, Orderly (s'.thread u).frames := by
  rw [hthread]
  refine ⟨Function.update_self .., fun u hu ↦ Function.update_of_ne hu .., fun u ↦ ?_, fun u ↦ ?_⟩ <;>
    rw [Function.update_apply] <;> split
  · exact hdepth
  · exact h.depth u
  · exact horderly
  · exact h.orderly u

/-- A step of thread `t` that neither takes nor gives the lock, nor moves the call that holds it. -/
theorem Inv.move (h : Inv s) (hthread : s'.thread = Function.update s.thread t thread)
    (hmutex : s'.collectMutex = s.collectMutex) (hregistry : s'.registry ⊆ s.registry)
    (hflag : s'.gcStopRequested = s.gcStopRequested)
    (hrequest : s'.handshake.stopRequested = s.handshake.stopRequested)
    (hdepth : thread.gcSafeRegionDepth = regionDepth thread.frames)
    (horderly : Orderly thread.frames)
    (hstages : lockStages thread.frames = lockStages (s.thread t).frames)
    (hstopped : s.handshake.stopRequested = true → lockStages (s.thread t).frames = [] →
      Stopped (s.thread t).frames → Stopped thread.frames) : Inv s' := by
  obtain ⟨hself, hother, hdepth, horderly⟩ := h.threads hthread hdepth horderly
  have hall : ∀ u, lockStages (s'.thread u).frames = lockStages (s.thread u).frames := fun u ↦ by
    by_cases hu : u = t
    · rw [hu, hself, hstages]
    · rw [hother u hu]
  refine ⟨hdepth, horderly, fun u hu ↦ ?_, fun hnone ↦ ?_, fun c hc ↦ ?_⟩
  · rw [hall]
    exact h.unlocked u (hmutex ▸ hu)
  · rw [hflag, hrequest]
    exact h.free (hmutex ▸ hnone)
  · obtain ⟨stage, hheld⟩ := h.held c (hmutex ▸ hc)
    refine ⟨stage, (hall c).trans hheld.stages, hflag.trans hheld.flag,
      hrequest.trans hheld.request, fun u hu hne hcounts ↦ ?_⟩
    have hold := hheld.stopped u (hregistry hu) hne hcounts
    by_cases hut : u = t
    · subst hut
      have hset : s.handshake.stopRequested = true := by
        rw [hheld.request]
        cases stage <;> simp_all [Collect.Counts, Collect.inWindow, Collect.requestSet]
      have hnone : lockStages (s.thread u).frames = [] :=
        h.unlocked u fun heq ↦ hne (Option.some_inj.mp (heq.symm.trans (hmutex ▸ hc)))
      rw [hself]
      exact hstopped hset hnone hold
    · rw [hother u hut]
      exact hold

/-- A step of the collector: it takes the lock or moves the call that holds it. -/
theorem Inv.collector (h : Inv s) (stage : Collect T)
    (hthread : s'.thread = Function.update s.thread t thread)
    (hbefore : s.collectMutex = some t ∨ s.collectMutex = none) (hmutex : s'.collectMutex = some t)
    (hflag : s'.gcStopRequested = stage.flagSet)
    (hrequest : s'.handshake.stopRequested = stage.requestSet)
    (hdepth : thread.gcSafeRegionDepth = regionDepth thread.frames)
    (horderly : Orderly thread.frames) (hstages : lockStages thread.frames = [stage])
    (hcounts : ∀ u ∈ s'.registry, u ≠ t → stage.Counts u → Stopped (s.thread u).frames) :
    Inv s' := by
  obtain ⟨hself, hother, hdepth, horderly⟩ := h.threads hthread hdepth horderly
  refine ⟨hdepth, horderly, fun u hu ↦ ?_, fun hnone ↦ ?_, fun c hc ↦ ?_⟩
  · have hut : u ≠ t := fun heq ↦ hu (heq ▸ hmutex)
    rw [hother u hut]
    refine h.unlocked u fun heq ↦ ?_
    rcases hbefore with hsome | hnone
    · exact hut (Option.some_inj.mp (heq.symm.trans hsome))
    · rw [heq] at hnone
      cases hnone
  · rw [hmutex] at hnone
    cases hnone
  · obtain rfl : t = c := Option.some_inj.mp (hmutex.symm.trans hc)
    refine ⟨stage, by rw [hself, hstages], hflag, hrequest, fun u hu hne hcount ↦ ?_⟩
    rw [hother u hne]
    exact hcounts u hu hne hcount

/-- The collector gives the lock back. -/
theorem Inv.unlock (h : Inv s) (hthread : s'.thread = Function.update s.thread t thread)
    (hbefore : s.collectMutex = some t) (hmutex : s'.collectMutex = none)
    (hflag : s'.gcStopRequested = false) (hrequest : s'.handshake.stopRequested = false)
    (hdepth : thread.gcSafeRegionDepth = regionDepth thread.frames)
    (horderly : Orderly thread.frames) (hstages : lockStages thread.frames = []) : Inv s' := by
  obtain ⟨hself, hother, hdepth, horderly⟩ := h.threads hthread hdepth horderly
  refine ⟨hdepth, horderly, fun u _ ↦ ?_, fun _ ↦ ⟨hflag, hrequest⟩, fun c hc ↦ ?_⟩
  · by_cases hu : u = t
    · rw [hu, hself, hstages]
    · rw [hother u hu]
      exact h.unlocked u fun heq ↦ hu (Option.some_inj.mp (heq.symm.trans hbefore))
  · rw [hmutex] at hc
    cases hc

/-- A step that leaves the shared state alone and exchanges the frames above `below`. -/
theorem Inv.setFrames (h : Inv s) (hdepth : regionDepth frames = regionDepth (s.thread t).frames)
    (horderly : Orderly frames) (hstages : lockStages frames = lockStages (s.thread t).frames)
    (hstopped : s.handshake.stopRequested = true → lockStages (s.thread t).frames = [] →
      Stopped (s.thread t).frames → Stopped frames) : Inv (s.setFrames t frames) :=
  h.move rfl rfl (List.Subset.refl _) rfl rfl ((h.depth t).trans hdepth.symm) horderly hstages hstopped

theorem Inv.enterRegion (h : Inv s)
    (hdepth : regionDepth frames = regionDepth (s.thread t).frames + 1) (horderly : Orderly frames)
    (hstages : lockStages frames = lockStages (s.thread t).frames) (hstopped : Stopped frames) :
    Inv (s.enterRegion t frames) := by
  refine h.move rfl rfl (List.Subset.refl _) rfl rfl ?_ horderly hstages fun _ _ _ ↦ hstopped
  rw [hdepth, ← h.depth t]

theorem Inv.leaveRegion (h : Inv s)
    (hdepth : regionDepth frames + 1 = regionDepth (s.thread t).frames) (horderly : Orderly frames)
    (hstages : lockStages frames = lockStages (s.thread t).frames)
    (hstopped : s.handshake.stopRequested = true → lockStages (s.thread t).frames = [] →
      Stopped frames) : Inv (s.leaveRegion t frames) := by
  refine h.move rfl rfl (List.Subset.refl _) rfl rfl ?_ horderly hstages
    fun hset hnone _ ↦ hstopped hset hnone
  simp only [h.depth t]
  omega

omit [DecidableEq T] in
/-- Leaving a region while a stop is requested leads back into an outer region. -/
theorem Inv.stopped_of_leave (h : Inv s) {frame : Frame T}
    (hframes : (s.thread t).frames = frame :: below) (hframe : frame.region = 1)
    (hlook : (s.thread t).gcSafeRegionDepth = 1 → s.stopRequested = false)
    (hset : s.handshake.stopRequested = true) (hnone : lockStages (s.thread t).frames = []) :
    Stopped below := by
  have hdepth := h.depth t
  have horderly := h.orderly t
  rw [hframes] at hdepth horderly hnone
  rw [regionDepth_cons, hframe] at hdepth
  rw [lockStages_cons, List.append_eq_nil_iff] at hnone
  refine stopped_of_region horderly.2 hnone.2 fun hzero ↦ ?_
  have hfalse := hlook (by rw [hdepth, hzero])
  simp [State.stopRequested, hset] at hfalse

theorem collecting_mem (h : thread.isCollecting = true) :
    .collecting ∈ lockStages thread.frames := by
  have hmem : Frame.collect .collecting ∈ thread.frames := by
    simpa [Thread.isCollecting] using h
  exact List.mem_filterMap.mpr ⟨_, hmem, rfl⟩

theorem lockStages_ne_nil (h : thread.isCollecting = true) : lockStages thread.frames ≠ [] :=
  List.ne_nil_of_mem (collecting_mem h)

/-! ## Steps -/

variable (h : Inv s)
include h

/-- A poll goes on without entering or leaving its region. -/
theorem Inv.nextPoll {stage stage' : Poll}
    (hframes : (s.thread t).frames = .poll stage :: below)
    (hregion : (Frame.poll stage' : Frame T).region = (Frame.poll stage : Frame T).region) :
    Inv (s.setFrames t (.poll stage' :: below)) := by
  have horderly := h.orderly t
  rw [hframes] at horderly
  apply h.setFrames
  · simp [hframes, hregion]
  · exact ⟨by simp [Frame.outside], horderly.2⟩
  · simp [hframes, Frame.lockStage]
  · simp [Frame.isStopped]

theorem advancePoll_inv {main : T} {stage : Poll}
    (hframes : (s.thread t).frames = .poll stage :: below)
    (hlook : stage = .leaving → (s.thread t).isCollecting = true ∨
      ((s.thread t).gcSafeRegionDepth = 1 → s.stopRequested = false))
    (hstep : advancePoll main s t below stage = some s') : Inv s' := by
  have horderly := h.orderly t
  rw [hframes] at horderly
  cases stage with
  | signals =>
    simp only [advancePoll] at hstep
    split at hstep
    · cases hstep
      refine h.move rfl rfl (List.Subset.refl _) rfl rfl ?_ ?_ ?_ ?_
      · simp [h.depth t, hframes, Frame.region]
      · exact ⟨by simp [Frame.outside], horderly.2⟩
      · simp [hframes, Frame.lockStage]
      · simp [Frame.isStopped]
    · cases hstep
      exact h.nextPoll hframes rfl
  | handling signals =>
    cases signals with
    | nil =>
      cases hstep
      exact h.nextPoll hframes rfl
    | cons signalnum signals => cases hstep
  | readFlag =>
    simp only [advancePoll] at hstep
    split at hstep
    · split at hstep
      · rename_i hcollecting
        cases hstep
        apply h.setFrames
        · simp [hframes, Frame.region]
        · exact horderly.2
        · simp [hframes, Frame.lockStage]
        · exact fun _ hnone ↦ absurd hnone (lockStages_ne_nil hcollecting)
      · cases hstep
        exact h.nextPoll hframes rfl
    · cases hstep
      exact h.nextPoll hframes rfl
  | readHandshake =>
    simp only [advancePoll] at hstep
    split at hstep
    · cases hstep
      exact h.nextPoll hframes rfl
    · rename_i hcontinue
      cases hstep
      apply h.setFrames
      · simp [hframes, Frame.region]
      · exact horderly.2
      · simp [hframes, Frame.lockStage]
      · -- Under a request only the collector itself returns from here.
        intro hset hnone
        rw [hset, Bool.true_and, Bool.not_eq_true', Bool.not_eq_false] at hcontinue
        exact absurd hnone (lockStages_ne_nil hcontinue)
  | entering =>
    cases hstep
    apply h.enterRegion
    · simp [hframes, Frame.region, Nat.add_comm]
    · exact ⟨by simp [Frame.outside], horderly.2⟩
    · simp [hframes, Frame.lockStage]
    · simp [Frame.isStopped]
  | acking =>
    cases hstep
    refine h.move rfl rfl (List.Subset.refl _) rfl ?_ ?_ ?_ ?_ ?_
    · simp
    · simp [h.depth t, hframes, Frame.region]
    · exact ⟨by simp [Frame.outside], horderly.2⟩
    · simp [hframes, Frame.lockStage]
    · simp [Frame.isStopped]
  | waiting =>
    simp only [advancePoll] at hstep
    split at hstep
    · cases hstep
    · cases hstep
      exact h.nextPoll hframes rfl
  | leaving =>
    cases hstep
    apply h.leaveRegion
    · simp [hframes, Frame.region, Nat.add_comm]
    · exact horderly.2
    · simp [hframes, Frame.lockStage]
    · intro hset hnone
      rcases hlook rfl with hcollecting | hlook
      · exact absurd hnone (lockStages_ne_nil hcollecting)
      · exact h.stopped_of_leave hframes rfl hlook hset hnone

/-- The holder of the lock is the thread whose call has a stage under the lock. -/
theorem Inv.holder (hframes : (s.thread t).frames = .collect stage :: below)
    (hstage : (Frame.collect stage).lockStage = some stage) :
    s.collectMutex = some t ∧ lockStages below = [] ∧ Held s t stage := by
  have hmutex : s.collectMutex = some t := by
    by_contra hother
    have hnone := h.unlocked t hother
    simp [hframes, hstage] at hnone
  obtain ⟨stage', hheld⟩ := h.held t hmutex
  have hstages := hheld.stages
  rw [hframes, lockStages_cons, hstage, Option.toList_some, List.singleton_append,
    List.cons.injEq] at hstages
  exact ⟨hmutex, hstages.2, hstages.1 ▸ hheld⟩

/-- The collector goes from one stage under the lock to the next. -/
theorem Inv.nextStage (stage' : Collect T)
    (hframes : (s.thread t).frames = .collect stage :: below)
    (hstage : (Frame.collect stage).lockStage = some stage)
    (hstage' : (Frame.collect stage').lockStage = some stage')
    (hregion : (Frame.collect stage).region = 0) (hregion' : (Frame.collect stage').region = 0)
    (hthread : s'.thread = (s.setFrames t (.collect stage' :: below)).thread)
    (hmutex : s'.collectMutex = s.collectMutex) (hregistry : s'.registry = s.registry)
    (hflag : s.gcStopRequested = stage.flagSet → s'.gcStopRequested = stage'.flagSet)
    (hrequest : s.handshake.stopRequested = stage.requestSet →
      s'.handshake.stopRequested = stage'.requestSet)
    (hcounts : Held s t stage → ∀ u ∈ s.registry, u ≠ t → stage'.Counts u →
      Stopped (s.thread u).frames) : Inv s' := by
  obtain ⟨hlocked, hbelow, hheld⟩ := h.holder hframes hstage
  have horderly := h.orderly t
  have hdepth := h.depth t
  rw [hframes] at horderly hdepth
  refine h.collector stage' hthread (Or.inl hlocked) (hmutex.trans hlocked) (hflag hheld.flag)
    (hrequest hheld.request) ?_ ⟨fun _ ↦ horderly.1 rfl, horderly.2⟩ ?_ ?_
  · simpa [hregion, hregion'] using hdepth
  · simp [hstage', hbelow]
  · rw [hregistry]
    exact hcounts hheld

theorem advanceCollect_inv (hframes : (s.thread t).frames = .collect stage :: below)
    (hstep : advanceCollect s t below stage = some s') : Inv s' := by
  have horderly := h.orderly t
  have hdepth := h.depth t
  rw [hframes] at horderly hdepth
  cases stage with
  | tryLock =>
    simp only [advanceCollect] at hstep
    split at hstep
    · rename_i hfree
      cases hstep
      have hnone := h.unlocked t (by simp [hfree])
      rw [hframes, lockStages_cons, List.append_eq_nil_iff] at hnone
      obtain ⟨hflag, hrequest⟩ := h.free hfree
      refine h.collector .requestFlag rfl (Or.inr hfree) rfl hflag hrequest ?_ ?_ ?_ ?_
      · simpa [Frame.region] using hdepth
      · exact ⟨horderly.1, horderly.2⟩
      · simp [Frame.lockStage, hnone.2]
      · simp [Collect.Counts, Collect.inWindow]
    · cases hstep
      apply h.setFrames
      · simp [hframes, Frame.region]
      · exact ⟨horderly.1, horderly.2⟩
      · simp [hframes, Frame.lockStage]
      · simp [hframes, Frame.isStopped]
  | enterBlocking =>
    cases hstep
    apply h.enterRegion
    · simp [hframes, Frame.region, Nat.add_comm]
    · exact ⟨horderly.1, horderly.2⟩
    · simp [hframes, Frame.lockStage]
    · simp [Frame.isStopped]
  | blocked =>
    simp only [advanceCollect] at hstep
    split at hstep
    · rename_i hfree
      cases hstep
      have hnone := h.unlocked t (by simp [hfree])
      rw [hframes, lockStages_cons, List.append_eq_nil_iff] at hnone
      obtain ⟨hflag, hrequest⟩ := h.free hfree
      refine h.collector .leaveBlocked rfl (Or.inr hfree) rfl hflag hrequest ?_ ?_ ?_ ?_
      · simpa [Frame.region] using hdepth
      · exact ⟨horderly.1, horderly.2⟩
      · simp [Frame.lockStage, hnone.2]
      · simp [Collect.Counts, Collect.inWindow]
    · cases hstep
  | leaveBlocked =>
    obtain ⟨hmutex, hbelow, hheld⟩ := h.holder hframes rfl
    cases hstep
    refine h.collector .requestFlag rfl (Or.inl hmutex) hmutex hheld.flag hheld.request ?_ ?_ ?_ ?_
    · simp [hdepth, Frame.region]
    · exact ⟨by simp [Frame.outside], horderly.1, horderly.2⟩
    · simp [Frame.lockStage, hbelow]
    · simp [Collect.Counts, Collect.inWindow]
  | requestFlag =>
    cases hstep
    refine h.nextStage .requestHandshake hframes rfl rfl rfl rfl rfl rfl rfl (fun _ ↦ rfl) id ?_
    simp [Collect.Counts, Collect.inWindow]
  | requestHandshake =>
    cases hstep
    refine h.nextStage .startPass hframes rfl rfl rfl rfl rfl rfl rfl id (fun _ ↦ rfl) ?_
    simp [Collect.Counts, Collect.inWindow]
  | startPass =>
    cases hstep
    refine h.nextStage (.pass s.registry true) hframes rfl rfl rfl rfl rfl rfl rfl id id ?_
    -- No thread is counted before its record is read.
    intro _ u hu _ hcounts
    exact absurd hu hcounts.2
  | pass records allStopped =>
    cases records with
    | cons record records =>
      obtain ⟨hmutex, _, _⟩ := h.holder hframes rfl
      cases hstep
      refine h.nextStage (.pass records (allStopped &&
        (record = t || (s.thread record).gcSafeRegionDepth ≠ 0))) hframes rfl rfl rfl rfl rfl rfl rfl
        id id ?_
      intro hheld u hu hne hcounts
      obtain ⟨hall, hunread⟩ := hcounts
      rw [Bool.and_eq_true, Bool.or_eq_true, decide_eq_true_eq, decide_eq_true_eq] at hall
      by_cases hrecord : u = record
      · subst hrecord
        have hregion := hall.2.resolve_left hne
        have hnone : lockStages (s.thread u).frames = [] :=
          h.unlocked u fun heq ↦ hne (Option.some_inj.mp (heq.symm.trans hmutex))
        rw [h.depth] at hregion
        exact stopped_of_region (h.orderly u) hnone hregion
      · exact hheld.stopped u hu hne ⟨hall.1, by simp [hrecord, hunread]⟩
    | nil =>
      cases allStopped with
      | true =>
        cases hstep
        refine h.nextStage .gathering hframes rfl rfl rfl rfl rfl rfl rfl id id ?_
        intro hheld u hu hne _
        exact hheld.stopped u hu hne ⟨rfl, List.not_mem_nil⟩
      | false =>
        cases hstep
        refine h.nextStage .startPass hframes rfl rfl rfl rfl rfl rfl rfl id id ?_
        simp [Collect.Counts, Collect.inWindow]
  | gathering =>
    cases hstep
    exact h.nextStage .collecting hframes rfl rfl rfl rfl rfl rfl rfl id id Held.stopped
  | collecting =>
    cases hstep
    exact h.nextStage .resumeFlag hframes rfl rfl rfl rfl rfl rfl rfl id id Held.stopped
  | resumeFlag =>
    cases hstep
    exact h.nextStage .resumeHandshake hframes rfl rfl rfl rfl rfl rfl rfl (fun _ ↦ rfl) id Held.stopped
  | resumeHandshake =>
    cases hstep
    refine h.nextStage .unlock hframes rfl rfl rfl rfl rfl rfl rfl id (fun _ ↦ rfl) ?_
    simp [Collect.Counts, Collect.inWindow]
  | unlock =>
    obtain ⟨hmutex, hbelow, hheld⟩ := h.holder hframes rfl
    cases hstep
    exact h.unlock rfl hmutex rfl hheld.flag hheld.request
      (by simpa [Frame.region] using hdepth) horderly.2 hbelow

theorem endHandler_inv {signals signals' : List ℕ} (above : List (Frame T))
    {raises : Bool} (hframes : (s.thread t).frames = above ++ .poll (.handling signals') :: below)
    (habove : above = [] ∨ above = [.mutator]) :
    Inv (endHandler s t signals below raises) := by
  have hbelow : Orderly below ∧ regionDepth (s.thread t).frames = regionDepth below ∧
      lockStages (s.thread t).frames = lockStages below := by
    have horderly := h.orderly t
    rcases habove with rfl | rfl
    · rw [hframes] at horderly ⊢
      exact ⟨horderly.2, by simp [Frame.region], by simp [Frame.lockStage]⟩
    · rw [hframes] at horderly ⊢
      exact ⟨horderly.2.2, by simp [Frame.region], by simp [Frame.lockStage]⟩
  obtain ⟨horderly, hdepth, hstages⟩ := hbelow
  cases raises with
  | true =>
    refine h.move rfl rfl (List.Subset.refl _) rfl rfl ?_ ⟨by simp [Frame.outside], horderly⟩ ?_ ?_
    · simp [h.depth t, hdepth, Frame.region]
    · simp [hstages, Frame.lockStage]
    · simp [Frame.isStopped]
  | false =>
    refine h.setFrames ?_ ⟨by simp [Frame.outside], horderly⟩ ?_ ?_
    · simp [hdepth, Frame.region]
    · simp [hstages, Frame.lockStage]
    · simp [Frame.isStopped]

/-- A native wait is entered from mutator code or from another wait. -/
theorem enter_inv {frame region : Frame T}
    (hframes : (s.thread t).frames = frame :: below) (hregion : region = .blocking ∨ region = .safe) :
    Inv (s.enterRegion t (region :: frame :: below)) := by
  have horderly := h.orderly t
  rw [hframes] at horderly
  rcases hregion with rfl | rfl
  all_goals
    apply h.enterRegion
    · simp [hframes, Frame.region, Nat.add_comm]
    · exact ⟨by simp [Frame.outside], horderly⟩
    · simp [hframes, Frame.lockStage]
    · simp [Frame.isStopped]

/-- A thread attaches while no stop is requested, so no collector has counted the others. -/
theorem Inv.attach (hframes : (s.thread t).frames = [])
    (hlook : LooksAtRequest s (t, .attach)) :
    Inv { s.setFrames t [.mutator] with registry := s.registry ++ [t] } := by
  have hset : s.stopRequested = false := by
    rcases hlook with hcollecting | hlook
    · exact absurd (by simp [hframes]) (lockStages_ne_nil hcollecting)
    · exact hlook
  have hbase : Inv (s.setFrames t [.mutator]) := by
    apply h.setFrames
    · simp [hframes, Frame.region]
    · simp [Orderly]
    · simp [hframes, Frame.lockStage]
    · rw [hframes]
      rintro _ _ ⟨_, _, hnil, _⟩
      cases hnil
  refine ⟨hbase.depth, hbase.orderly, hbase.unlocked, hbase.free, fun c hc ↦ ?_⟩
  obtain ⟨stage, hheld⟩ := hbase.held c hc
  refine ⟨stage, hheld.stages, hheld.flag, hheld.request, fun u _ _ hcounts ↦ ?_⟩
  have hrequest : s.handshake.stopRequested = stage.requestSet := hheld.request
  cases stage <;> simp_all [Collect.Counts, Collect.inWindow, Collect.requestSet, State.stopRequested]

/-- One step that looks at the stop request keeps the invariant. -/
theorem step_inv {main : T} {act : Act} (hlook : LooksAtRequest s (t, act))
    (hstep : step main s t act = some s') : Inv s' := by
  have horderly := h.orderly t
  have hcases := step_cases hstep
  generalize hframes : (s.thread t).frames = frames at hcases
  cases hcases with
  | poll =>
    rw [hframes] at horderly
    apply h.setFrames
    · simp [hframes, Frame.region]
    · exact ⟨by simp [Frame.outside], horderly⟩
    · simp [hframes, Frame.lockStage]
    · simp [Frame.isStopped]
  | enter hregion _ => exact enter_inv h hframes hregion
  | leaveBlocking =>
    rw [hframes] at horderly
    apply h.leaveRegion
    · simp [hframes, Frame.region, Nat.add_comm]
    · exact ⟨by simp [Frame.outside], horderly.2⟩
    · simp [hframes, Frame.lockStage]
    · simp [Frame.isStopped]
  | leaveSafe =>
    rw [hframes] at horderly
    apply h.leaveRegion
    · simp [hframes, Frame.region, Nat.add_comm]
    · exact horderly.2
    · simp [hframes, Frame.lockStage]
    · intro hset hnone
      rcases hlook with hcollecting | hlook
      · exact absurd hnone (lockStages_ne_nil hcollecting)
      · exact h.stopped_of_leave hframes rfl hlook hset hnone
  | collect =>
    rw [hframes] at horderly
    apply h.setFrames
    · simp [hframes, Frame.region]
    · refine ⟨fun _ ↦ ?_, horderly⟩
      simpa [Frame.lockStage, Frame.region] using horderly.1 rfl
    · simp [hframes, Frame.lockStage]
    · simp [hframes, Frame.isStopped]
  | advancePoll hstep =>
    refine advancePoll_inv h hframes (fun hleaving ↦ ?_) hstep
    subst hleaving
    rcases hlook with hcollecting | hlook
    · exact Or.inl hcollecting
    · simp only [hframes] at hlook
      exact Or.inr hlook
  | advanceCollect hstep => exact advanceCollect_inv h hframes hstep
  | handler =>
    rw [hframes] at horderly
    apply h.setFrames
    · simp [hframes, Frame.region]
    · refine ⟨fun _ ↦ ?_, by simp [Frame.outside], horderly.2⟩
      rcases hlook with hcollecting | ⟨hzero, _⟩
      · have hne := lockStages_ne_nil hcollecting
        rw [hframes] at hne
        left
        simpa [Frame.lockStage] using hne
      · rw [h.depth t, hframes] at hzero
        right
        simpa [Frame.region] using hzero
    · simp [hframes, Frame.lockStage]
    · intro hset hnone
      rcases hlook with hcollecting | ⟨_, hfalse⟩
      · exact absurd hnone (lockStages_ne_nil hcollecting)
      · simp [State.stopRequested, hset] at hfalse
  | noHandler => exact endHandler_inv h [] hframes (Or.inl rfl)
  | finalizer =>
    rw [hframes] at horderly
    apply h.setFrames
    · simp [hframes, Frame.region]
    · exact ⟨fun _ ↦ Or.inl (by simp [Frame.lockStage]), horderly⟩
    · simp [hframes, Frame.lockStage]
    · simp [hframes, Frame.lockStage]
  | finishHandler => exact endHandler_inv h [.mutator] hframes (Or.inr rfl)
  | finishFinalizer =>
    rw [hframes] at horderly
    apply h.setFrames
    · simp [hframes, Frame.region]
    · exact horderly.2
    · simp [hframes, Frame.lockStage]
    · simp [hframes, Frame.isStopped]
  | abort =>
    exact h.nextStage .resumeFlag hframes rfl rfl rfl rfl rfl rfl rfl id id Held.stopped
  | attach => exact h.attach hframes hlook
  | detach =>
    refine h.move rfl rfl (List.erase_subset) rfl rfl ?_ trivial ?_ ?_
    · simp [h.depth t, hframes, Frame.region]
    · simp [hframes, Frame.lockStage]
    · simp [hframes, Frame.isStopped]
  | signal =>
    have hsame : s.thread = Function.update s.thread t (s.thread t) :=
      (Function.update_eq_self t s.thread).symm
    exact h.move hsame rfl (List.Subset.refl _) rfl rfl (h.depth t) horderly rfl fun _ _ hold ↦ hold

end Preservation

/-! ## Runs -/

/-- In every run whose steps look at the stop request, a collector that has observed the other
threads stopped has them stopped until it resumes them. -/
theorem stop_the_world_exclusion [DecidableEq T] (main : T) (s : State T)
    (h : Reachable Initial LooksAtRequest (Step main) s) : Excluded s := by
  have hinv : Inv s := h.invariant Inv (fun _ hinit ↦ inv_of_initial hinit)
    fun _ _ _ hinv hlook hstep ↦ step_inv hinv hlook hstep
  exact hinv.excluded

section Execution

variable [DecidableEq T]

/-- Any number of attached threads. -/
def start (registry : List T) : State T where
  gcStopRequested := false
  handshake := .new
  collectMutex := none
  registry := registry
  pendingSignals := []
  thread t := if t ∈ registry then ⟨[.mutator], 0⟩ else ⟨[], 0⟩

theorem initial_start (registry : List T) : Initial (start registry) where
  gcStopRequested := rfl
  handshake := rfl
  collectMutex := rfl
  attached t ht := by simp [start, show t ∈ registry from ht]
  detached t ht := by simp [start, show t ∉ registry from ht]

instance (s : State T) (label : T × Act) : Decidable (LooksAtRequest s label) := by
  unfold LooksAtRequest
  split <;> infer_instance

/-- Run the steps in order; with `checked`, only those that look at the request. -/
def runSteps (main : T) (checked : Bool) (s : State T) : List (T × Act) → Option (State T)
  | [] => some s
  | label :: rest =>
    if checked && !decide (LooksAtRequest s label) then
      none
    else
      match step main s label.1 label.2 with
      | none => none
      | some s' => runSteps main checked s' rest

theorem runSteps_eq (main : T) (checked : Bool) (s : State T) (labels : List (T × Act)) :
    runSteps main checked s labels =
      runLabels (fun s label ↦ !(checked && !decide (LooksAtRequest s label)))
        (fun s label ↦ step main s label.1 label.2) s labels := by
  fun_induction runSteps main checked s labels <;> simp_all [runLabels]

end Execution

/-- Thread 0 collects. Thread 1 polls between the two stores of the request: it finds the flag set,
enters its region, finds no request in the handshake and goes on to leave the region. -/
def racingLabels : List (ℕ × Act) :=
  [(0, .collect), (0, .advance), (0, .advance), (1, .poll), (1, .advance), (1, .advance),
    (1, .advance), (1, .advance), (1, .advance), (0, .advance), (0, .advance), (0, .advance),
    (0, .advance), (0, .advance), (1, .advance)]

/-- Thread 1 waits in a blocking region, and thread 2 polls, while thread 0 collects. -/
def waitingLabels : List (ℕ × Act) :=
  [(1, .enterBlocking), (0, .collect), (0, .advance), (0, .advance), (0, .advance), (2, .poll),
    (2, .advance), (2, .advance), (2, .advance), (2, .advance), (1, .leaveBlocking), (1, .advance),
    (1, .advance), (1, .advance), (0, .advance), (0, .advance), (0, .advance), (0, .advance),
    (0, .advance)]

theorem stop_the_world_exclusion_waiting :
    ∃ s, runSteps 0 true (start [0, 1, 2]) waitingLabels = some s ∧
      (s.thread 0).frames = [.collect .gathering, .mutator] ∧ Excluded s := by
  obtain ⟨s, hrun⟩ : ∃ s, runSteps 0 true (start [0, 1, 2]) waitingLabels = some s :=
    Option.isSome_iff_exists.mp (by decide)
  have hframes : (runSteps 0 true (start [0, 1, 2]) waitingLabels).map
      (fun s ↦ (s.thread 0).frames) = some [.collect .gathering, .mutator] := by decide
  rw [hrun] at hframes
  have hreachable : Reachable Initial LooksAtRequest (Step 0) s :=
    .runLabels (fun _ _ h ↦ by simpa using h) (.start (initial_start _))
      ((runSteps_eq 0 true _ _).symm.trans hrun)
  exact ⟨s, hrun, Option.some_inj.mp hframes, stop_the_world_exclusion 0 s hreachable⟩

/-- Without the condition thread 1 executes mutator code in the window of thread 0. -/
theorem stop_the_world_race :
    ¬ ∀ (main : ℕ) (s : State ℕ), Reachable Initial (fun _ _ ↦ True) (Step main) s → Excluded s := by
  intro hall
  obtain ⟨s, hrun⟩ : ∃ s, runSteps 0 false (start [0, 1]) racingLabels = some s :=
    Option.isSome_iff_exists.mp (by decide)
  have hframes : (runSteps 0 false (start [0, 1]) racingLabels).map
      (fun s ↦ (s.registry, (s.thread 0).frames, (s.thread 1).frames)) =
        some ([0, 1], [.collect .gathering, .mutator], [.mutator]) := by decide
  rw [hrun, Option.map_some, Option.some_inj, Prod.mk.injEq, Prod.mk.injEq] at hframes
  obtain ⟨hregistry, hcollector, hmutator⟩ := hframes
  have hreachable : Reachable Initial (fun _ _ ↦ True) (Step 0) s :=
    .runLabels (fun _ _ _ ↦ trivial) (.start (initial_start _))
      ((runSteps_eq 0 false _ _).symm.trans hrun)
  refine hall 0 s hreachable 0 1 ⟨.gathering, by simp [hcollector], rfl⟩ (by simp [hregistry])
    (by decide) ?_
  simp [ExecutesMutator, hmutator]

end Pon.StopTheWorld
